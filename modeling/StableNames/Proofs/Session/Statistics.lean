-- What a session counts. The tally is kept in the session and never taken
-- back, so it adds up over runs: a run that succeeds has counted each of
-- its records, and one that failed those before the method that it failed
-- at. The families that lost a name are counted once, in the run that named
-- them.
import StableNames.Proofs.Session.Replaced

namespace StableNames

open Naming

/-! ## Tallies -/

namespace Tally

def plus (t u : Tally) : Tally :=
  ⟨t.classes + u.classes, t.fields + u.fields, t.methods + u.methods, t.renamed + u.renamed,
    t.decided + u.decided⟩

@[simp] theorem plus_zero (t : Tally) : t.plus {} = t := rfl

@[simp] theorem zero_plus (t : Tally) : Tally.plus {} t = t := by
  cases t
  simp [plus]

theorem plus_assoc (t u v : Tally) : (t.plus u).plus v = t.plus (u.plus v) := by
  simp [plus, Nat.add_assoc]

end Tally

/-! ## What a run comes to -/

/-- A class that gets its name, or a record. -/
inductive Visit where
  | target (c : ClassId)
  | record (s : Symbol)
deriving DecidableEq, Repr

namespace Session

variable (settings : Settings) (g : Graph) (l : Lineage)

/-- The records of a class, if it is written. -/
def recordVisits (c : ClassId) : List Visit :=
  if included settings g c then
    .record (.ofClass c) :: ((writtenFields settings c g).map fun f => .record (.ofField f)) ++
      (writtenMethods settings c g).map fun m => .record (.ofMethod m)
  else []

/-- All that a run comes to. -/
def visits : List Visit :=
  g.classIds.flatMap fun c => .target c :: recordVisits settings g c

/-- What is counted where a run comes to something. -/
def weight : Visit → Tally
  | .target c =>
    { renamed := if !keepsName settings (l.graph.classInfo c) && l.isStale (.ofClass c) then 1
        else 0 }
  | .record (.ofClass _) => { classes := 1 }
  | .record (.ofField f) =>
    { fields := 1
      renamed := if isScrambledField (l.graph.field f).name && l.isStale (.ofField f) then 1
        else 0 }
  | .record (.ofMethod _) => { methods := 1 }

/-- What is counted on the way. -/
def total (vs : List Visit) : Tally := (vs.map (weight settings l)).foldr Tally.plus {}

/-- A method that is scrambled is done with when it has a name. -/
def isDone (n : Naming) : Visit → Bool
  | .record (.ofMethod m) =>
    !isScrambledMethod (l.graph.method m).name || (n.resolved.get? m).isSome
  | _ => true

/-- What a run came to before it failed, given the names after it. -/
def reached (n : Naming) (vs : List Visit) : List Visit := vs.takeWhile (isDone l n)

/-- Between the states this was counted, whatever was decided. -/
def Counted (vs : List Visit) (n n' : Naming) : Prop :=
  ∃ decided, n'.tally = { n.tally.plus (total settings l vs) with decided }

variable {settings g l} {vs vs' : List Visit} {n n₁ n' : Naming}

theorem total_append :
    total settings l (vs ++ vs') = (total settings l vs).plus (total settings l vs') := by
  unfold total
  induction vs with
  | nil => simp
  | cons v vs ih =>
    rw [List.cons_append, List.map_cons, List.map_cons, List.foldr_cons, List.foldr_cons, ih,
      Tally.plus_assoc]

theorem Counted.nil (n : Naming) : Counted settings l [] n n := ⟨n.tally.decided, rfl⟩

theorem Counted.trans (h : Counted settings l vs n n₁) (h' : Counted settings l vs' n₁ n') :
    Counted settings l (vs ++ vs') n n' := by
  obtain ⟨d, hd⟩ := h
  obtain ⟨d', hd'⟩ := h'
  refine ⟨d', ?_⟩
  rw [hd', hd, total_append]
  simp [Tally.plus, Nat.add_assoc]

/-- Only the tally counts. -/
theorem Counted.congr {k k' : Naming} (h : Counted settings l vs n n')
    (hn : ∃ decided, k.tally = { n.tally with decided })
    (hn' : ∃ decided, k'.tally = { n'.tally with decided }) : Counted settings l vs k k' := by
  obtain ⟨d, hd⟩ := h
  obtain ⟨e, he⟩ := hn
  obtain ⟨e', he'⟩ := hn'
  refine ⟨e', ?_⟩
  rw [he', hd, he]
  rfl

theorem isDone_mono (h : n.Retains n') {v : Visit} (hv : isDone l n v = true) :
    isDone l n' v = true := by
  unfold isDone at hv ⊢
  split
  · rename_i m
    rw [Bool.or_eq_true] at hv ⊢
    refine hv.imp_right ?_
    intro hsome
    obtain ⟨name, hname⟩ := Option.isSome_iff_exists.1 hsome
    rw [h.resolved m name hname]
    rfl
  · rfl

theorem reached_eq_self (h : ∀ v ∈ vs, isDone l n v = true) : reached l n vs = vs :=
  List.takeWhile_eq_self_iff.2 h

theorem reached_append (h : ∀ v ∈ vs, isDone l n v = true) :
    reached l n (vs ++ vs') = vs ++ reached l n vs' :=
  List.takeWhile_append_of_pos h

/-- What comes after a failure is not reached. -/
theorem reached_append_of_not (h : ¬∀ v ∈ vs, isDone l n v = true) :
    reached l n (vs ++ vs') = reached l n vs := by
  unfold reached
  rw [List.takeWhile_append, if_neg]
  intro hlength
  have hall : vs.takeWhile (isDone l n) = vs :=
    (List.takeWhile_prefix _).eq_of_length hlength
  exact h (List.takeWhile_eq_self_iff.1 hall)

/-! ## Steps that count -/

variable {μ α β : Type} {policy : Policy μ} {c : ClassId} {m : MethodId}

/-- The step keeps track of the families and takes back no name. It counts all of `vs` if it
succeeds, and else what it reached. -/
def Counts (settings : Settings) (l : Lineage) (vs : List Visit) (x : Step (Naming × μ) α) :
    Prop :=
  ∀ n memory answer n' memory', n.Tracks settings l → x.exec (n, memory) = (answer, n', memory') →
    n'.Tracks settings l ∧ n.Retains n' ∧ Counted settings l (reached l n' vs) n n' ∧
      ((∃ a, answer = .ok a) ↔ ∀ v ∈ vs, isDone l n' v = true)

namespace Counts

theorem pure (a : α) : Counts settings l [] (pure a : Step (Naming × μ) α) := by
  intro n memory answer n' memory' hn hx
  cases hx
  exact ⟨hn, .refl _, .nil _, iff_of_true ⟨a, rfl⟩ (by simp)⟩

theorem bind {x : Step (Naming × μ) α} {f : α → Step (Naming × μ) β}
    (hx : Counts settings l vs x) (hf : ∀ a, Counts settings l vs' (f a)) :
    Counts settings l (vs ++ vs') (x >>= f) := by
  intro n memory answer n' memory' hn hb
  rw [Step.exec_bind] at hb
  rcases hxn : x.exec (n, memory) with ⟨problem | a, n₁, memory₁⟩
  · rw [hxn] at hb
    cases hb
    obtain ⟨htracks, hretains, hcounted, hiff⟩ := hx _ _ _ _ _ hn hxn
    -- the visit that failed is one of `vs`, so none of `vs'` is reached
    have hnot : ¬∀ v ∈ vs, isDone l n' v = true := by
      rw [← hiff]
      rintro ⟨_, h⟩
      cases h
    refine ⟨htracks, hretains, ?_, ?_⟩
    · rw [reached_append_of_not hnot]
      exact hcounted
    · apply iff_of_false
      · rintro ⟨_, h⟩
        cases h
      · intro h
        exact hnot fun v hv => h v (List.mem_append_left _ hv)
  · rw [hxn] at hb
    obtain ⟨htracks₁, hretains₁, hcounted₁, hiff₁⟩ := hx _ _ _ _ _ hn hxn
    obtain ⟨htracks, hretains, hcounted, hiff⟩ := hf a _ _ _ _ _ htracks₁ hb
    -- names stay, so what was done before `f` is so after it
    have hdone := hiff₁.1 ⟨a, rfl⟩
    have hdone' : ∀ v ∈ vs, isDone l n' v = true := fun v hv => isDone_mono hretains (hdone v hv)
    refine ⟨htracks, hretains₁.trans hretains, ?_, ?_⟩
    · rw [reached_append hdone']
      rw [reached_eq_self hdone] at hcounted₁
      exact hcounted₁.trans hcounted
    · rw [hiff, List.forall_mem_append]
      exact (and_iff_right hdone').symm

/-- What comes after a step that counts nothing more. -/
theorem andThen {x : Step (Naming × μ) α} {f : α → Step (Naming × μ) β}
    (hx : Counts settings l vs x) (hf : ∀ a, Counts settings l [] (f a)) :
    Counts settings l vs (x >>= f) := by
  rw [← List.append_nil vs]
  exact hx.bind hf

theorem mapM {ι : Type} {visit : ι → Visit} {f : ι → Step (Naming × μ) α} {is : List ι}
    (h : ∀ i ∈ is, Counts settings l [visit i] (f i)) :
    Counts settings l (is.map visit) (is.mapM f) := by
  induction is with
  | nil => exact .pure []
  | cons i is ih =>
    rw [List.mapM_cons, List.map_cons, ← List.singleton_append]
    have htail := ih fun j hj => h j (List.mem_cons_of_mem _ hj)
    exact (h i List.mem_cons_self).bind fun a => htail.andThen fun as => .pure (a :: as)

/-- A step on the naming alone that does not fail and names no method. -/
theorem onFirst {x : Step Naming α} (hdone : ∀ n, ∀ v ∈ vs, isDone l n v = true)
    (h : ∀ n, n.Tracks settings l → ∃ a n', x.exec n = (.ok a, n') ∧ n'.Tracks settings l ∧
      n.Retains n' ∧ Counted settings l vs n n') :
    Counts settings l vs (x.onFirst : Step (Naming × μ) α) := by
  intro n memory answer n' memory' hn hx
  obtain ⟨a, n₁, hxn, htracks, hretains, hcounted⟩ := h n hn
  rw [Step.exec_onFirst, hxn] at hx
  cases hx
  refine ⟨htracks, hretains, ?_, iff_of_true ⟨a, rfl⟩ (hdone _)⟩
  rw [reached_eq_self (hdone _)]
  exact hcounted

end Counts

/-- From `n` the step gives a result, and has counted that many names that could not stay. -/
def Drops (settings : Settings) (l : Lineage) (x : Step Naming α) (n : Naming) (dropped : Nat) :
    Prop :=
  ∃ a n', x.exec n = (.ok a, n') ∧ n'.Tracks settings l ∧ n.Retains n' ∧
    n'.tally = { n.tally with renamed := n.tally.renamed + dropped }

theorem drops_pure (hn : n.Tracks settings l) (a : α) :
    Drops settings l (pure a : Step Naming α) n 0 := ⟨a, n, rfl, hn, .refl n, rfl⟩

theorem drops_bind_pure {x : Step Naming α} {dropped : Nat} (h : Drops settings l x n dropped)
    (f : α → β) : Drops settings l (x >>= fun a => pure (f a)) n dropped := by
  obtain ⟨a, n', hx, h⟩ := h
  exact ⟨f a, n', Step.exec_bind_eq_ok.2 ⟨a, n', hx, rfl⟩, h⟩

theorem drops_allocate (hn : n.Tracks settings l) {s : Symbol} (hs : ∀ m, s ≠ .ofMethod m) :
    Drops settings l (allocate s s.category) n 0 := by
  obtain ⟨name, a, hx, ha, _⟩ := exec_allocate_sorted hn.sorted s
  exact ⟨name, _, hx, hn.allocate hs ha,
    ⟨fun _ _ h => h, (Allocator.allocate_eq_ok ha).1, fun _ ht => ht.allocate ha⟩, rfl⟩

theorem drops_replace (hn : n.Tracks settings l) {s : Symbol} (hs : ∀ m, s ≠ .ofMethod m)
    (stale : String) (f : String → α) :
    Drops settings l (replace stale s s.category >>= fun name =>
      (modify fun n => { n with tally := { n.tally with renamed := n.tally.renamed + 1 } }) >>=
        fun _ => pure (f name)) n 1 := by
  obtain ⟨name, a, ha, _⟩ := hn.sorted.allocate s
  have hx : (replace stale s s.category).exec n =
      (.ok name, { n with allocator := a, log := n.log ++ [.info s!"{stale} is now {name}"] }) := by
    rw [exec_replace, ha]
  refine ⟨f name, _, Step.exec_bind_eq_ok.2 ⟨name, _, hx, rfl⟩, ?_, ?_, rfl⟩
  · exact (hn.allocate hs ha).congr rfl rfl rfl
  · exact ⟨fun _ _ h => h, (Allocator.allocate_eq_ok ha).1, fun _ ht => ht.allocate ha⟩

theorem drops_classTarget (hn : n.Tracks settings l) (around : String) :
    Drops settings l (classTarget settings l c around) n
      (if !keepsName settings (l.graph.classInfo c) && l.isStale (.ofClass c) then 1 else 0) := by
  have hs : ∀ m, Symbol.ofClass c ≠ .ofMethod m := by simp
  unfold classTarget Lineage.isStale Lineage.knownPart? Graph.className Category.disowns
  rcases hkeep : keepsName settings (l.graph.classInfo c) with _ | _
  · rcases hearlier : l.chain.lookupClass (l.graph.classInfo c).name with _ | earlier
    · simp only [hkeep, hearlier]
      exact drops_bind_pure (drops_allocate hn hs) _
    · simp only [hkeep, hearlier]
      rw [show String.ofList (Text.afterLast '$' earlier.toList) = ownPart earlier from rfl]
      rcases ho : Category.ofClass.owns (ownPart earlier) with _ | _
      · simp only [Option.map_some, Option.any_some, ho]
        exact drops_replace hn hs _ _
      · simp only [Option.map_some, Option.any_some, ho]
        exact drops_pure hn _
  · simp only [hkeep]
    exact drops_pure hn _

theorem drops_newFieldName (hn : n.Tracks settings l) (f : FieldId) :
    Drops settings l (newFieldName l f) n
      (if isScrambledField (l.graph.field f).name && l.isStale (.ofField f) then 1 else 0) := by
  have hs : ∀ m, Symbol.ofField f ≠ .ofMethod m := by simp
  unfold newFieldName fieldName Lineage.isStale Lineage.knownField? Category.disowns
  rcases hscrambled : isScrambledField (l.graph.field f).name with _ | _
  · exact drops_pure hn _
  · rcases hearlier : l.chain.lookupMember ⟨l.graph.className (l.graph.field f).owner,
      (l.graph.field f).name, (l.graph.field f).desc⟩ with _ | earlier
    · simp only [hearlier, if_true]
      exact drops_allocate hn hs
    · rcases ho : Category.ofField.owns earlier.name with _ | _
      · simp only [hearlier, if_true, Option.map_some, Option.any_some, ho]
        exact drops_replace hn hs _ id
      · simp only [hearlier, if_true, Option.map_some, Option.any_some, ho]
        exact drops_pure hn _

/-- A count of one visit. -/
theorem counts_count {v : Visit} {f : Tally → Tally} (hdone : ∀ n, isDone l n v = true)
    (hf : ∀ t : Tally, f t = t.plus (weight settings l v)) :
    Counts settings l [v] ((count f).onFirst : Step (Naming × μ) Unit) := by
  refine .onFirst (fun n => by simpa using hdone n) ?_
  intro n hn
  refine ⟨(), { n with tally := f n.tally }, rfl, hn.congr rfl rfl rfl, .of_eq rfl rfl,
    n.tally.decided + (weight settings l v).decided, ?_⟩
  show f n.tally = _
  rw [hf]
  simp [total, Tally.plus]

theorem counts_classTarget (around : String) :
    Counts settings l [.target c]
      ((classTarget settings l c around).onFirst : Step (Naming × μ) Target) := by
  apply Counts.onFirst (by simp [isDone])
  intro n hn
  obtain ⟨t, n', hx, htracks, hretains, htally⟩ := drops_classTarget hn around
  refine ⟨t, n', hx, htracks, hretains, n.tally.decided, ?_⟩
  rw [htally]
  simp [total, weight, Tally.plus]

theorem counts_fieldRecord (owner : String) (f : FieldId) :
    Counts settings l [.record (.ofField f)]
      ((fieldRecord l owner f).onFirst : Step (Naming × μ) Record) := by
  apply Counts.onFirst (by simp [isDone])
  intro n hn
  obtain ⟨name, n', hx, htracks, hretains, htally⟩ := drops_newFieldName hn f
  rw [fieldRecord_eq]
  refine ⟨_, _, Step.exec_bind_eq_ok.2 ⟨name, n', hx, rfl⟩, htracks.congr rfl rfl rfl,
    hretains.trans (.of_eq rfl rfl), n.tally.decided, ?_⟩
  simp only
  rw [htally]
  simp [total, weight, Tally.plus]

/-- A call counts no record. -/
theorem tally_of_call {memory memory' : μ} {answer : Except Problem String}
    (h : Call l policy c m n memory answer n' memory') :
    ∃ decided, n'.tally = { n.tally with decided } := by
  cases h with
  | settled hu hc hs => cases hs <;> exact ⟨_, rfl⟩
  | _ => exact ⟨_, rfl⟩

/-- A method that the resolver failed at has no name after it. -/
theorem unnamed_of_exec_resolve_error {memory memory' : μ} {problem : Problem}
    (h : (resolve l policy c m).exec (n, memory) = (.error problem, n', memory')) :
    n'.resolved.get? m = none := by
  have hcall := call_of_resolve l policy c m n memory
  rw [h] at hcall
  rw [hcall.error_keeps.1]
  rcases hm : n.resolved.get? m with _ | name
  · rfl
  · rw [exec_resolve_known policy c memory hm] at h
    cases h

variable (hg : l.graph.Coherent) (hnodup : (walk settings l.graph).Nodup)

include hg hnodup

theorem counts_methodRecord (hc : c < l.graph.classCount)
    (hi : included settings l.graph c = true) (hm : m ∈ writtenMethods settings c l.graph) :
    Counts settings l [.record (.ofMethod m)] (methodRecord l policy c m) := by
  have hcounted : ∀ {n n' : Naming}, (∃ decided, n'.tally = { n.tally with decided }) →
      Counted settings l [.record (.ofMethod m)] n
        { n' with tally := { n'.tally with methods := n'.tally.methods + 1 } } := by
    rintro n n' ⟨decided, h⟩
    refine ⟨decided, ?_⟩
    simp only
    rw [h]
    simp [total, weight, Tally.plus]
  intro n memory answer n' memory' hn hx
  rw [methodRecord_eq, Step.exec_bind] at hx
  unfold newMethodName at hx
  rcases hscrambled : isScrambledMethod (l.graph.method m).name with _ | _
  · rw [hscrambled] at hx
    cases hx
    have hdone : ∀ n : Naming, ∀ v ∈ [Visit.record (.ofMethod m)], isDone l n v = true := by
      simp [isDone, hscrambled]
    refine ⟨hn.congr rfl rfl rfl, .of_eq rfl rfl, ?_, iff_of_true ⟨_, rfl⟩ (hdone _)⟩
    rw [reached_eq_self (hdone _)]
    exact hcounted ⟨_, rfl⟩
  · rw [hscrambled, if_pos rfl] at hx
    obtain rfl := ((mem_writtenMethods hg).1 hm).2.2.1
    have hwalk : .ofMethod m ∈ walk settings l.graph :=
      mem_walk_ofMethod.2 ⟨_, hc, hi, hm, hscrambled⟩
    have hcall := call_of_resolve l policy (l.graph.method m).owner m n memory
    rcases hxn : (resolve l policy (l.graph.method m).owner m).exec (n, memory) with
      ⟨problem | name, n₁, memory₁⟩
    · rw [hxn] at hx hcall
      cases hx
      have hnot : isDone l n' (.record (.ofMethod m)) = false := by
        simp [isDone, hscrambled, unnamed_of_exec_resolve_error hxn]
      refine ⟨hn.call hg hnodup hwalk hcall, hcall.retains, ?_, ?_⟩
      · unfold reached
        rw [List.takeWhile_cons_of_neg (by simp [hnot])]
        exact (Counted.nil n).congr ⟨_, rfl⟩ (tally_of_call hcall)
      · simp [hnot]
    · rw [hxn] at hx hcall
      cases hx
      have hdone : ∀ v ∈ [Visit.record (.ofMethod m)], isDone l n₁ v = true := by
        simp [isDone, hcall.named]
      refine ⟨(hn.call hg hnodup hwalk hcall).congr rfl rfl rfl,
        hcall.retains.trans (.of_eq rfl rfl), ?_, iff_of_true ⟨_, rfl⟩ hdone⟩
      show Counted settings l (reached l n₁ _) n _
      rw [reached_eq_self hdone]
      exact hcounted (tally_of_call hcall)

theorem counts_classRecords (hc : c < l.graph.classCount) (target : String) :
    Counts settings l (recordVisits settings l.graph c)
      (classRecords settings l policy c target) := by
  unfold recordVisits
  rcases hi : included settings l.graph c with _ | _
  · rw [classRecords_of_not_included _ _ _ _ _ hi]
    exact .pure _
  · have hcount : Counts settings l [.record (.ofClass c)]
        ((count fun t => { t with classes := t.classes + 1 }).onFirst : Step (Naming × μ) Unit) :=
      counts_count (fun _ => rfl) fun _ => rfl
    rw [classRecords_eq _ _ _ _ _ hi, if_pos rfl, List.cons_append, ← List.singleton_append]
    refine hcount.bind fun _ => ?_
    refine Counts.bind (.mapM fun f _ => counts_fieldRecord _ f) fun fields => ?_
    refine Counts.andThen (.mapM fun m hm => counts_methodRecord hg hnodup hc hi hm) fun _ => ?_
    exact .pure _

theorem counts_records {classes : List ClassId} (hclasses : ∀ c ∈ classes, c < l.graph.classCount)
    (targets : List String) :
    Counts settings l
      (classes.flatMap fun c => .target c :: recordVisits settings l.graph c)
      (records settings l policy targets classes) := by
  induction classes generalizing targets with
  | nil => exact .pure _
  | cons c rest ih =>
    have hc := hclasses c List.mem_cons_self
    have hrest := ih fun d hd => hclasses d (List.mem_cons_of_mem _ hd)
    rw [List.flatMap_cons, List.cons_append, ← List.singleton_append]
    unfold records
    refine (counts_classTarget _).bind fun target => ?_
    refine (counts_classRecords hg hnodup hc _).bind fun here => ?_
    exact (hrest _).andThen fun _ => .pure _

theorem counts_allRecords :
    Counts settings l (visits settings l.graph) (allRecords settings l policy) := by
  have hrecords : Counts settings l
      (l.graph.classIds.flatMap fun c => .target c :: recordVisits settings l.graph c)
      (records settings l policy [] l.graph.classIds) :=
    counts_records hg hnodup (fun _ hc => Graph.mem_classIds.1 hc) []
  unfold allRecords visits
  simp only
  split
  · rw [← List.nil_append (List.flatMap _ _)]
    refine Counts.bind (.onFirst (by simp) ?_) fun _ => hrecords
    intro n hn
    exact ⟨(), _, rfl, hn.congr rfl rfl rfl, .of_eq rfl rfl, .nil n⟩
  · exact hrecords

end Session

/-! ## Counts of records -/

/-- The kind of symbol that a record is about. -/
def Record.category? : Record → Option Category
  | .ofClass _ _ => some .ofClass
  | .ofField _ _ _ _ => some .ofField
  | .ofMethod _ _ _ _ => some .ofMethod
  | .verbatim _ => none

/-- How many records there are of a category. -/
def recordCount (category : Category) (rs : List Record) : Nat :=
  rs.countP fun r => r.category? = some category

@[simp] theorem recordCount_append (category : Category) (rs rs' : List Record) :
    recordCount category (rs ++ rs') = recordCount category rs + recordCount category rs' :=
  List.countP_append

/-- The class or field has an earlier name that cannot stay. -/
def Lineage.loses (l : Lineage) : Symbol → Bool
  | .ofMethod _ => false
  | s => l.isStale s

theorem Lineage.countP_isReplaced (l : Lineage) (n : Naming) (symbols : List Symbol) :
    symbols.countP (l.isReplaced n) =
      symbols.countP l.loses + symbols.countP (l.headsReplaced n) := by
  induction symbols with
  | nil => rfl
  | cons s symbols ih =>
    have hs : (if l.isReplaced n s then 1 else 0) =
        (if l.loses s then 1 else 0) + if l.headsReplaced n s then 1 else 0 := by
      cases s with
      | ofMethod m => exact (Nat.zero_add _).symm
      | _ => rfl
    rw [List.countP_cons, List.countP_cons, List.countP_cons, ih, hs]
    omega

namespace Session

variable {settings : Settings} {l : Lineage} {c : ClassId}

theorem total_fields (fs : List FieldId) :
    total settings l (fs.map fun f => .record (.ofField f)) =
      { fields := fs.length
        renamed := (fs.flatMap (fieldSymbols l.graph)).countP l.loses } := by
  induction fs with
  | nil => rfl
  | cons f fs ih =>
    rw [List.map_cons, ← List.singleton_append, total_append, ih, List.flatMap_cons,
      List.countP_append]
    rcases hs : isScrambledField (l.graph.field f).name with _ | _ <;>
      rcases hl : l.isStale (.ofField f) with _ | _ <;>
        simp [total, weight, Tally.plus, fieldSymbols, Lineage.loses, hs, hl, Nat.add_comm]

theorem total_methods (ms : List MethodId) :
    total settings l (ms.map fun m => .record (.ofMethod m)) = { methods := ms.length } := by
  induction ms with
  | nil => rfl
  | cons m ms ih =>
    rw [List.map_cons, ← List.singleton_append, total_append, ih]
    simp [total, weight, Tally.plus, Nat.add_comm]

theorem countP_loses_methods (ms : List MethodId) :
    (ms.flatMap (methodSymbols l.graph)).countP l.loses = 0 := by
  rw [methodSymbols_eq, List.countP_map, List.countP_eq_zero]
  intro m _
  exact Bool.false_ne_true

/-- The records of a class by their categories. -/
theorem recordCount_classRecords (R : Roster) (g : Graph) (category : Category) :
    recordCount category (R.classRecords settings g c) =
      match category with
      | .ofClass => 1
      | .ofField => (writtenFields settings c g).length
      | .ofMethod => (writtenMethods settings c g).length := by
  unfold Roster.classRecords
  rw [List.cons_append, ← List.singleton_append, recordCount_append, recordCount_append]
  unfold recordCount
  rw [List.countP_map, List.countP_map]
  cases category <;> simp [Record.category?, Roster.fieldRecord, Roster.methodRecord,
    Function.comp_def]

/-- A class and its records are counted as what they are. -/
theorem total_class (R : Roster) {rs : List Record} (hrs : rs =
    if included settings l.graph c then R.classRecords settings l.graph c else []) :
    total settings l (.target c :: recordVisits settings l.graph c) =
      { classes := recordCount .ofClass rs
        fields := recordCount .ofField rs
        methods := recordCount .ofMethod rs
        renamed := (classSymbols settings l.graph c ++ memberSymbols settings l.graph c).countP
          l.loses } := by
  have hclass : total settings l [.target c] =
      { renamed := (classSymbols settings l.graph c).countP l.loses } := by
    unfold classSymbols
    rcases hkeep : keepsName settings (l.graph.classInfo c) with _ | _ <;>
      rcases hl : l.isStale (.ofClass c) with _ | _ <;>
        simp [total, weight, Lineage.loses, hkeep, hl]
  rw [← List.singleton_append, total_append, hclass, List.countP_append]
  subst hrs
  unfold recordVisits memberSymbols
  split
  · rw [List.cons_append, ← List.singleton_append, total_append, total_append, total_fields,
      total_methods, List.countP_append, countP_loses_methods]
    simp only [recordCount_classRecords]
    simp [total, weight, Tally.plus]
  · simp [total, Tally.plus, recordCount]

/-- A whole run counts its records, and the classes and fields whose earlier names cannot stay. -/
theorem total_visits (R : Roster) {rs : List Record}
    (hrs : rs = R.recordsOn settings l.graph (included settings l.graph)) :
    total settings l (visits settings l.graph) =
      { classes := recordCount .ofClass rs
        fields := recordCount .ofField rs
        methods := recordCount .ofMethod rs
        renamed := (walk settings l.graph).countP l.loses } := by
  subst hrs
  unfold visits Roster.recordsOn walk
  induction l.graph.classIds with
  | nil => rfl
  | cons c rest ih =>
    rw [List.flatMap_cons, List.flatMap_cons, List.countP_append, total_append, ih,
      List.filter_cons, total_class R rfl]
    split <;> simp [Tally.plus, recordCount]

/-! ## Names that were replaced -/

/-- The record of a symbol with a new name. -/
def recordAs (g : Graph) (s : Symbol) (name : String) : Record :=
  match s with
  | .ofClass c => .ofClass (g.className c) name
  | .ofField f =>
    .ofField (g.className (g.field f).owner) (g.field f).desc (g.field f).name name
  | .ofMethod m =>
    .ofMethod (g.className (g.method m).owner) (g.method m).desc (g.method m).name name

/-- The symbols are those whose earlier names had to go: classes and fields by themselves, and
families by the one of their methods that has their number. The records show their numbers, as
far as they are of classes that are written. -/
structure Replacements (settings : Settings) (l : Lineage) (n : Naming) (rs : List Record)
    (replaced : List Symbol) : Prop where
  nodup : replaced.Nodup
  stale : ∀ s ∈ replaced, l.isStale s = true
  single : ∀ s ∈ walk settings l.graph, (∀ m, s ≠ .ofMethod m) → l.isStale s = true →
    s ∈ replaced
  family : l.graph.SignaturesApart → ∀ m, .ofMethod m ∈ walk settings l.graph →
    l.isStale (.ofMethod m) = true → ∃! k, k ∈ familyOf l.graph m ∧ .ofMethod k ∈ replaced
  shown : ∀ s ∈ replaced, included settings l.graph (homeOf l.graph s) = true → ∃ place k,
    n.allocator.numbers.get? s = some (s.category, k) ∧
      recordAs l.graph s (place ++ s.category.name k) ∈ rs ∧ (place = "" ∨ ∃ c, s = .ofClass c)

section Replaced

variable {μ : Type} {n : Naming} {classes : List String}

/-- A name that is not what was known has the number of its symbol. -/
theorem exists_number_of_disowns {s : Symbol} {category : Category} {known? : Option String}
    {name : String} (h : n.Sourced s category known? name)
    (hstale : category.disowns known? = true) :
    ∃ k, n.allocator.numbers.get? s = some (category, k) ∧ name = category.name k := by
  cases h with
  | adopted hk ho =>
    subst hk
    simp [Category.disowns, ho] at hstale
  | numbered _ hs => exact ⟨_, hs, rfl⟩

theorem mem_replaced {s : Symbol} :
    s ∈ l.replaced settings n ↔ s ∈ walk settings l.graph ∧ l.isReplaced n s = true :=
  List.mem_filter

theorem isStale_of_isReplaced {s : Symbol} (h : l.isReplaced n s = true) : l.isStale s = true := by
  cases s with
  | ofMethod m => exact (Lineage.isReplaced_ofMethod_iff.1 h).1
  | _ => exact h

theorem isReplaced_of_isStale {s : Symbol} (hs : ∀ m, s ≠ .ofMethod m)
    (h : l.isStale s = true) : l.isReplaced n s = true := by
  cases s with
  | ofMethod m => exact absurd rfl (hs m)
  | _ => exact h

variable (hg : l.graph.Coherent) (hn : n.Tracks settings l)
  (hgood : ∀ c < l.graph.classCount,
    (included settings l.graph c = true → l.ClassGood settings n c) ∧
      l.Targeted settings n c (surroundings settings l.graph classes c) (classes.getD c ""))

include hg hn hgood

/-- A family that lost its name has the number of one of its methods. -/
theorem existsUnique_replaced (hapart : l.graph.SignaturesApart) {m : MethodId}
    (hm : .ofMethod m ∈ walk settings l.graph) (hstale : l.isStale (.ofMethod m) = true) :
    ∃! k, k ∈ familyOf l.graph m ∧ .ofMethod k ∈ l.replaced settings n := by
  have hlt := lt_of_mem_walk hg hm
  obtain ⟨c, hc, hi, hwritten, hscrambled⟩ := mem_walk_ofMethod.1 hm
  obtain ⟨name, hname⟩ := ((hgood c hc).1 hi).methods m hwritten hscrambled
  obtain ⟨k, hk, e, he⟩ := hn.settled hapart m hlt name hname hstale
  have hkstale := (Lineage.isStale_congr hg hapart hlt hk).trans hstale
  refine ⟨k, ⟨hk, mem_replaced.2 ⟨(hn.number k e.1 e.2 he).2,
    Lineage.isReplaced_ofMethod_iff.2 ⟨hkstale, e, he⟩⟩⟩, ?_⟩
  rintro p ⟨hp, hpreplaced⟩
  obtain ⟨_, e', he'⟩ := Lineage.isReplaced_ofMethod_iff.1 (mem_replaced.1 hpreplaced).2
  have hkp : p ∈ familyOf l.graph k :=
    (Graph.mem_family_congr hg hapart.keysDistinct hlt hk).2 hp
  exact hn.alone hapart k p e e' hkp he he'

/-- What was replaced has its number in the records, if its class is written. -/
theorem exists_record_of_replaced {s : Symbol} (hs : s ∈ l.replaced settings n)
    (hi : included settings l.graph (homeOf l.graph s) = true) :
    ∃ place k, n.allocator.numbers.get? s = some (s.category, k) ∧
      recordAs l.graph s (place ++ s.category.name k) ∈
        (l.roster n classes).recordsOn settings l.graph (included settings l.graph) ∧
      (place = "" ∨ ∃ c, s = .ofClass c) := by
  obtain ⟨hwalk, hreplaced⟩ := mem_replaced.1 hs
  have hstale := isStale_of_isReplaced hreplaced
  cases s with
  | ofClass c =>
    obtain ⟨hc, hkeep⟩ := mem_walk_ofClass.1 hwalk
    obtain ⟨own, hown, hfull⟩ := (hgood c hc).2.renamed hkeep
    obtain ⟨k, hk, rfl⟩ := exists_number_of_disowns hown hstale
    exact ⟨_, k, hk, Roster.mem_recordsOn_ofClass.2 ⟨c, hc, hi, rfl, hfull.symm⟩, .inr ⟨c, rfl⟩⟩
  | ofField f =>
    obtain ⟨c, hc, _, hf, hscrambled⟩ := mem_walk_ofField.1 hwalk
    obtain rfl := ((mem_writtenFields hg).1 hf).2.2
    have hsource := ((hgood _ hc).1 hi).fields f hf hscrambled
    obtain ⟨k, hk, hname⟩ := exists_number_of_disowns hsource hstale
    refine ⟨"", k, hk, Roster.mem_recordsOn_ofField.2 ⟨_, hc, hi, f, hf, rfl, rfl, rfl, ?_⟩,
      .inl rfl⟩
    rw [String.empty_append, Roster.fieldName, if_pos hscrambled]
    exact hname.symm
  | ofMethod m =>
    obtain ⟨_, ⟨category, k⟩, he⟩ := Lineage.isReplaced_ofMethod_iff.1 hreplaced
    obtain rfl := hn.sorted _ _ _ he
    obtain ⟨c, hc, _, hwritten, hscrambled⟩ := mem_walk_ofMethod.1 hwalk
    obtain rfl := ((mem_writtenMethods hg).1 hwritten).2.2.1
    refine ⟨"", k, he, Roster.mem_recordsOn_ofMethod.2
      ⟨_, hc, hi, m, hwritten, rfl, rfl, rfl, ?_⟩, .inl rfl⟩
    rw [String.empty_append, Roster.methodName, if_pos hscrambled]
    unfold Lineage.roster
    simp only
    rw [(hn.number m _ k he).1]
    rfl

/-- After a run that succeeds its records show what was replaced. -/
theorem replacements (hnodup : (walk settings l.graph).Nodup) :
    Replacements settings l n
      ((l.roster n classes).recordsOn settings l.graph (included settings l.graph))
      (l.replaced settings n) where
  nodup := hnodup.filter _
  stale _ hs := isStale_of_isReplaced (mem_replaced.1 hs).2
  single _ hs hmethod hstale := mem_replaced.2 ⟨hs, isReplaced_of_isStale hmethod hstale⟩
  family hapart _ hm hstale := existsUnique_replaced hg hn hgood hapart hm hstale
  shown _ hs hi := exists_record_of_replaced hg hn hgood hs hi

end Replaced

/-! ## Sessions -/

/-- A session that runs were made in, with all that these came to. Those that failed came to
what is before the method that they failed at. -/
inductive Visited : Session → List Visit → Prop
  | unused {s : Session} (hnumbers : s.naming.allocator.numbers = ∅)
      (hresolved : s.naming.resolved = ∅) (hrenamed : s.naming.renamed = 0)
      (htally : s.naming.tally = {}) : Visited s []
  | ran {s : Session} {past : List Visit} {μ : Type} (h : Visited s past) (policy : Policy μ)
      (memory : μ) : Visited (s.generate policy memory).2.1
        (past ++ reached s.lineage (s.generate policy memory).2.1.naming
          (visits s.settings s.lineage.graph))

section Sessions

variable {μ : Type} {s s' : Session} {source : String} {doc : Document} {past : List Visit}
  {policy : Policy μ} {memory memory' : μ} {out : Generated}

/-- What a run counts, whether it fails or not. -/
theorem counted_generate (hload : Graph.ofDocument source doc = .ok s.lineage.graph)
    (hn : s.naming.Tracks s.settings s.lineage) (policy : Policy μ) (memory : μ) :
    (s.generate policy memory).2.1.naming.Tracks s.settings s.lineage ∧
      Counted s.settings s.lineage (reached s.lineage (s.generate policy memory).2.1.naming
        (visits s.settings s.lineage.graph)) s.naming (s.generate policy memory).2.1.naming ∧
      ∀ out, (s.generate policy memory).1 = .ok out → ∀ v ∈ visits s.settings s.lineage.graph,
        isDone s.lineage (s.generate policy memory).2.1.naming v = true := by
  have hcounts := @counts_allRecords s.settings s.lineage μ policy
    (Graph.coherent_of_ofDocument hload) (nodup_walk hload _)
  rcases hx : (allRecords s.settings s.lineage policy).exec (s.naming, memory) with
    ⟨problem | rs, n, memory'⟩
  · obtain ⟨htracks, _, hcounted, _⟩ := hcounts _ _ _ _ _ hn hx
    rw [generate_of_exec_error hx]
    refine ⟨htracks, hcounted, ?_⟩
    intro out hout
    cases hout
  · obtain ⟨htracks, _, hcounted, hdone⟩ := hcounts _ _ _ _ _ hn hx
    rw [generate_of_exec hx]
    exact ⟨htracks, hcounted, fun _ _ => hdone.1 ⟨rs, rfl⟩⟩

theorem Visited.counted (h : Visited s past)
    (hload : Graph.ofDocument source doc = .ok s.lineage.graph) :
    s.naming.Tracks s.settings s.lineage ∧
      Counted s.settings s.lineage past {} s.naming := by
  induction h with
  | unused hnumbers hresolved hrenamed htally =>
    refine ⟨.start hnumbers hresolved hrenamed, 0, ?_⟩
    rw [htally]
    rfl
  | @ran s past _ _ policy memory ih =>
    obtain ⟨hsettings, hlineage⟩ := generate_keeps s policy memory
    rw [hlineage] at hload
    obtain ⟨htracks, hcounted⟩ := ih hload
    obtain ⟨htracks', hcounted', _⟩ := counted_generate hload htracks policy memory
    rw [hsettings, hlineage]
    exact ⟨htracks', hcounted.trans hcounted'⟩

/-- The statistics of a run count the records of its text on top of all that the earlier runs of
its session came to, also those that failed. What they say of replaced names is on top of what
these runs counted for classes and fields. It goes for all classes and fields, and for all
families that lost their names in the session so far, but a class that is not written has no
record that shows it. -/
theorem statistics_add_up_over_a_session (hvisited : Visited s past)
    (hload : Graph.ofDocument source doc = .ok s.lineage.graph)
    (hgen : s.generate policy memory = (.ok out, s', memory')) :
    ∃ rs, out.text = textOf rs out.counters ∧
      Replacements s.settings s.lineage s'.naming rs (s.lineage.replaced s.settings s'.naming) ∧
      out.stats.classes = (total s.settings s.lineage past).classes + recordCount .ofClass rs ∧
      out.stats.fields = (total s.settings s.lineage past).fields + recordCount .ofField rs ∧
      out.stats.methods = (total s.settings s.lineage past).methods + recordCount .ofMethod rs ∧
      out.stats.renamed = (total s.settings s.lineage past).renamed +
        (s.lineage.replaced s.settings s'.naming).length := by
  have hg := Graph.coherent_of_ofDocument hload
  obtain ⟨htracks, d, hpast⟩ := hvisited.counted hload
  obtain ⟨rs, hx, rfl⟩ := generate_eq_ok hgen
  obtain ⟨_, _, hrs⟩ := runs_allRecords (I := fun _ _ => True) kept_true hg _ _ _ _ _ trivial hx
  obtain ⟨classes, _, rfl, hgood⟩ := hrs rs rfl _ (.refl _)
  obtain ⟨htracks', ⟨d', hcounted⟩, hdone⟩ := counted_generate hload htracks policy memory
  rw [hgen] at htracks' hcounted hdone
  rw [reached_eq_self (hdone _ rfl), total_visits (s.lineage.roster s'.naming classes) rfl, hpast]
    at hcounted
  refine ⟨_, rfl, replacements hg htracks' hgood (nodup_walk hload _), ?_⟩
  have hreplaced : (s.lineage.replaced s.settings s'.naming).length =
      (walk s.settings s.lineage.graph).countP s.lineage.loses + s'.naming.renamed := by
    unfold Lineage.replaced
    rw [← List.countP_eq_length_filter, Lineage.countP_isReplaced, htracks'.renamed]
  rw [hreplaced]
  unfold result
  simp only
  rw [hcounted]
  simp [Tally.plus, Nat.add_assoc]

/-- A session for one class, whose earlier name lacks the marker. -/
def unmarkedSession : Session where
  settings := allScrambled
  lineage.graph := (Graph.ofDocument "" ⟨[{ name := "a" }]⟩).toOption.getD {}
  lineage.chain.current? := some <| .tables { classes := .ofList [("a", "x")] }

/-- That session after a run. -/
def unmarkedSessionAgain : Session := (unmarkedSession.generate Policy.fail ()).2.1

/-- The second run gives one record too, but its statistics have two classes and two names that
were replaced. -/
theorem statistics_add_up_over_a_session_again : ∃ out s' rs,
    unmarkedSessionAgain.generate Policy.fail () = (.ok out, s', ()) ∧
      out.text = textOf rs out.counters ∧ recordCount .ofClass rs = 1 ∧
      (unmarkedSession.lineage.replaced unmarkedSession.settings s'.naming).length = 1 ∧
      out.stats.classes = 2 ∧ out.stats.renamed = 2 := by
  have hvisited : Visited unmarkedSessionAgain
      (reached unmarkedSession.lineage unmarkedSessionAgain.naming
        (visits unmarkedSession.settings unmarkedSession.lineage.graph)) :=
    .ran (.unused rfl rfl rfl rfl) Policy.fail ()
  have hpast : total unmarkedSession.settings unmarkedSession.lineage
      (reached unmarkedSession.lineage unmarkedSessionAgain.naming
        (visits unmarkedSession.settings unmarkedSession.lineage.graph)) =
      { classes := 1, renamed := 1 } := by
    decide +kernel
  have hsame : unmarkedSessionAgain.settings = unmarkedSession.settings ∧
      unmarkedSessionAgain.lineage = unmarkedSession.lineage := generate_keeps _ _ _
  have hload : Graph.ofDocument "" ⟨[{ name := "a" }]⟩ =
      .ok unmarkedSessionAgain.lineage.graph := by
    rw [hsame.2]
    rfl
  have hstats : ((unmarkedSessionAgain.generate Policy.fail ()).1.toOption.map (·.stats)) =
      some { classes := 2, renamed := 2 } := by
    decide +kernel
  rcases hgen : unmarkedSessionAgain.generate Policy.fail () with ⟨answer, s', _⟩
  rw [hgen] at hstats
  obtain ⟨out, hout, htwo⟩ := Option.map_eq_some_iff.1 hstats
  obtain rfl := eq_ok_of_toOption hout
  obtain ⟨rs, htext, _, hclasses, _, _, hrenamed⟩ :=
    statistics_add_up_over_a_session hvisited hload hgen
  rw [hsame.1, hsame.2, hpast, htwo] at hclasses hrenamed
  refine ⟨out, s', rs, rfl, htext, ?_, ?_, ?_, ?_⟩
  · exact (Nat.add_left_cancel hclasses).symm
  · exact (Nat.add_left_cancel hrenamed).symm
  · rw [htwo]
  · rw [htwo]

end Sessions

end Session

end StableNames
