-- The names of a whole graph in one value. When every symbol is known
-- under the name that the roster has for it, then a run gives the records
-- of the roster. It allocates nothing, renames nothing and asks nothing.
import StableNames.Proofs.Graph.Families
import StableNames.Proofs.Naming.Resolver
import StableNames.Proofs.Session.Steps
import StableNames.Proofs.Session.Targets

namespace StableNames

/-! ## What is written -/

section Written

variable {settings : Settings} {g : Graph} {c : ClassId}

namespace Session

theorem mem_writtenFields (hg : g.Coherent) {f : FieldId} :
    f ∈ writtenFields settings c g ↔
      settings.mapFields = true ∧ f < g.fields.size ∧ (g.field f).owner = c := by
  unfold writtenFields
  split
  · rename_i hmap
    rw [hg.mem_fields, and_iff_right hmap]
  · rename_i hmap
    simp [hmap]

theorem mem_writtenMethods (hg : g.Coherent) {m : MethodId} :
    m ∈ writtenMethods settings c g ↔ settings.mapMethods = true ∧ m < g.methodCount ∧
      (g.method m).owner = c ∧ isWritten g c m = true := by
  unfold writtenMethods
  split
  · rename_i hmap
    rw [List.mem_filter, hg.mem_methods, and_iff_right hmap, and_assoc]
  · rename_i hmap
    simp [hmap]

end Session

end Written

/-! ## Rosters -/

/-- A name for each class, in order, and for each member that is scrambled. -/
structure Roster where
  classes : List String
  field : FieldId → String
  method : MethodId → String

namespace Roster

/-- The new name of a class. -/
def target (R : Roster) (c : ClassId) : String := R.classes.getD c ""

/-- The new name of a field. -/
def fieldName (R : Roster) (g : Graph) (f : FieldId) : String :=
  if isScrambledField (g.field f).name then R.field f else (g.field f).name

/-- The new name of a method. -/
def methodName (R : Roster) (g : Graph) (m : MethodId) : String :=
  if isScrambledMethod (g.method m).name then R.method m else (g.method m).name

def fieldRecord (R : Roster) (g : Graph) (c : ClassId) (f : FieldId) : Record :=
  .ofField (g.className c) (g.field f).desc (g.field f).name (R.fieldName g f)

def methodRecord (R : Roster) (g : Graph) (c : ClassId) (m : MethodId) : Record :=
  .ofMethod (g.className c) (g.method m).desc (g.method m).name (R.methodName g m)

/-- The records of a class. -/
def classRecords (R : Roster) (settings : Settings) (g : Graph) (c : ClassId) : List Record :=
  .ofClass (g.className c) (R.target c) ::
    (Session.writtenFields settings c g).map (R.fieldRecord g c) ++
      (Session.writtenMethods settings c g).map (R.methodRecord g c)

/-- The records of all classes. -/
def records (R : Roster) (settings : Settings) (g : Graph) : List Record :=
  g.classIds.flatMap (R.classRecords settings g)

/-- The records of the classes that `p` picks. -/
def recordsOn (R : Roster) (settings : Settings) (g : Graph) (p : ClassId → Bool) :
    List Record :=
  (g.classIds.filter p).flatMap (R.classRecords settings g)

theorem recordsOn_all (R : Roster) (settings : Settings) (g : Graph) :
    R.recordsOn settings g (fun _ => true) = R.records settings g := by
  unfold recordsOn records
  rw [List.filter_true]

/-- Without include patterns all classes are written. -/
theorem recordsOn_included (R : Roster) {settings : Settings} (h : settings.includes = [])
    (g : Graph) : R.recordsOn settings g (Session.included settings g) = R.records settings g := by
  rw [Session.included_of_nil settings h, recordsOn_all]

/-- What is known from before of every symbol that a run asks for is its name in the roster,
and that name may stay. -/
structure Known (R : Roster) (settings : Settings) (l : Lineage) : Prop where
  length_classes : R.classes.length = l.graph.classCount
  kept : ∀ c < l.graph.classCount, Session.keepsName settings (l.graph.classInfo c) = true →
    R.target c = l.graph.className c
  adopted : ∀ c < l.graph.classCount, Session.keepsName settings (l.graph.classInfo c) = false →
    ∃ earlier, l.chain.lookupClass (l.graph.className c) = some earlier ∧
      Category.ofClass.owns (Session.ownPart earlier) = true ∧
      Session.placeOf settings (l.graph.className c) (Session.placeLike earlier
        (Session.surroundings settings l.graph R.classes c)) ++ Session.ownPart earlier =
          R.target c
  field : ∀ f < l.graph.fields.size, isScrambledField (l.graph.field f).name = true →
    (l.graph.field f).owner < l.graph.classCount → settings.mapFields = true →
    ∃ earlier, l.chain.lookupMember ⟨l.graph.className (l.graph.field f).owner,
        (l.graph.field f).name, (l.graph.field f).desc⟩ = some earlier ∧
      Category.ofField.owns earlier.name = true ∧ earlier.name = R.field f
  method : ∀ c, ∀ m ∈ Session.writtenMethods settings c l.graph,
    isScrambledMethod (l.graph.method m).name = true →
    Category.ofMethod.owns (R.method m) = true ∧
      ∃ origins, l.candidates c m = [⟨R.method m, origins⟩]
  family : ∀ m < l.graph.methodCount, ∀ k ∈ l.graph.family (l.graph.method m).owner m,
    R.method k = R.method m

end Roster

/-! ## Steps that change no name -/

/-- Between the states nothing was allocated, renamed or decided, and all methods that have
a name have that of the roster. -/
structure Naming.Follows (R : Roster) (n n' : Naming) : Prop where
  allocator : n'.allocator = n.allocator
  renamed : n'.renamed = n.renamed
  tally_renamed : n'.tally.renamed = n.tally.renamed
  decided : n'.tally.decided = n.tally.decided
  resolved : ∀ m name, n'.resolved.get? m = some name → name = R.method m

namespace Session

open Naming

variable {μ α β : Type} {R : Roster} {n₀ : Naming} {settings : Settings} {l : Lineage}
  {policy : Policy μ} {c : ClassId} {m : MethodId}

/-- From each state that follows the first one, the step gives `a`, leaves the policy alone,
and goes to another such state. -/
def Gives (R : Roster) (n₀ : Naming) (x : Step (Naming × μ) α) (a : α) : Prop :=
  ∀ n memory, Follows R n₀ n →
    ∃ n', x.exec (n, memory) = (.ok a, n', memory) ∧ Follows R n₀ n'

theorem Gives.pure (a : α) : Gives R n₀ (pure a : Step (Naming × μ) α) a :=
  fun _ _ hn => ⟨_, rfl, hn⟩

theorem Gives.bind {x : Step (Naming × μ) α} {f : α → Step (Naming × μ) β} {a : α} {b : β}
    (hx : Gives R n₀ x a) (hf : Gives R n₀ (f a) b) : Gives R n₀ (x >>= f) b := by
  intro n memory hn
  obtain ⟨n₁, hx, hn₁⟩ := hx n memory hn
  obtain ⟨n₂, hf, hn₂⟩ := hf n₁ memory hn₁
  exact ⟨n₂, Step.exec_bind_eq_ok.2 ⟨a, _, hx, hf⟩, hn₂⟩

theorem Gives.mapM {ι : Type} {f : ι → Step (Naming × μ) α} {f' : ι → α} {is : List ι}
    (h : ∀ i ∈ is, Gives R n₀ (f i) (f' i)) : Gives R n₀ (is.mapM f) (is.map f') := by
  induction is with
  | nil => exact .pure _
  | cons i is ih =>
    rw [List.mapM_cons, List.map_cons]
    have htail := ih fun j hj => h j (List.mem_cons_of_mem _ hj)
    apply (h i List.mem_cons_self).bind
    exact htail.bind (.pure _)

theorem Gives.onFirst {x : Step Naming α} {a : α}
    (h : ∀ n, Follows R n₀ n → ∃ n', x.exec n = (.ok a, n') ∧ Follows R n₀ n') :
    Gives R n₀ (x.onFirst : Step (Naming × μ) α) a := by
  intro n memory hn
  obtain ⟨n', hx, hn'⟩ := h n hn
  exact ⟨n', by rw [Step.exec_onFirst, hx], hn'⟩

/-- Counting what is written changes no name. -/
theorem gives_count {f : Tally → Tally} (hr : ∀ t, (f t).renamed = t.renamed)
    (hd : ∀ t, (f t).decided = t.decided) :
    Gives R n₀ ((count f).onFirst : Step (Naming × μ) Unit) () :=
  .onFirst fun _ hn => ⟨_, rfl, hn.allocator, hn.renamed, (hr _).trans hn.tally_renamed,
    (hd _).trans hn.decided, hn.resolved⟩

/-! ## Symbols that are known -/

theorem exec_classTarget_kept (h : keepsName settings (l.graph.classInfo c) = true)
    (around : String) (n : Naming) :
    (classTarget settings l c around).exec n = (.ok ⟨l.graph.className c, ""⟩, n) := by
  unfold classTarget
  simp only [h, if_true]
  rfl

theorem exec_classTarget_adopted (h : keepsName settings (l.graph.classInfo c) = false)
    {earlier : String} (hl : l.chain.lookupClass (l.graph.className c) = some earlier)
    (ho : Category.ofClass.owns (ownPart earlier) = true) (around : String) (n : Naming) :
    (classTarget settings l c around).exec n =
      (.ok ⟨placeOf settings (l.graph.className c) (placeLike earlier around), ownPart earlier⟩,
        n) := by
  unfold Graph.className at hl
  unfold ownPart at ho
  unfold classTarget
  simp only [h, Bool.false_eq_true, if_false, hl, ho, if_true]
  rfl

theorem gives_classTarget (h : R.Known settings l) (hc : c < l.graph.classCount) :
    ∃ t : Target, t.full = R.target c ∧
      Gives R n₀ ((classTarget settings l c (surroundings settings l.graph R.classes c)).onFirst :
        Step (Naming × μ) Target) t := by
  rcases hkeep : keepsName settings (l.graph.classInfo c) with _ | _
  · obtain ⟨earlier, hl, ho, hfull⟩ := h.adopted c hc hkeep
    refine ⟨⟨placeOf settings (l.graph.className c) (placeLike earlier
      (surroundings settings l.graph R.classes c)), ownPart earlier⟩, hfull, ?_⟩
    apply Gives.onFirst
    intro n hn
    exact ⟨n, exec_classTarget_adopted hkeep hl ho _ n, hn⟩
  · refine ⟨⟨l.graph.className c, ""⟩, ?_, ?_⟩
    · rw [h.kept c hc hkeep, Target.full, String.append_empty]
    · apply Gives.onFirst
      intro n hn
      exact ⟨n, exec_classTarget_kept hkeep _ n, hn⟩

theorem exec_fieldName_adopted {f : FieldId} {earlier : Member}
    (hl : l.chain.lookupMember ⟨l.graph.className (l.graph.field f).owner,
      (l.graph.field f).name, (l.graph.field f).desc⟩ = some earlier)
    (ho : Category.ofField.owns earlier.name = true) (n : Naming) :
    (fieldName l f).exec n = (.ok earlier.name, n) := by
  unfold fieldName
  simp only [hl, ho, if_true]
  rfl

theorem gives_fieldRecord (h : R.Known settings l) (hg : l.graph.Coherent)
    (hc : c < l.graph.classCount) {f : FieldId} (hf : f ∈ writtenFields settings c l.graph) :
    Gives R n₀ ((fieldRecord l (l.graph.className c) f).onFirst : Step (Naming × μ) Record)
      (R.fieldRecord l.graph c f) := by
  obtain ⟨hmap, hlt, rfl⟩ := (mem_writtenFields hg).1 hf
  have hname : ∀ n, (newFieldName l f).exec n = (.ok (R.fieldName l.graph f), n) := by
    intro n
    unfold newFieldName Roster.fieldName
    rcases hs : isScrambledField (l.graph.field f).name with _ | _
    · rfl
    · obtain ⟨earlier, hl, ho, hname⟩ := h.field f hlt hs hc hmap
      simp only [if_true]
      rw [exec_fieldName_adopted hl ho, hname]
  apply Gives.onFirst
  intro n hn
  refine ⟨{ n with tally := { n.tally with fields := n.tally.fields + 1 } }, ?_, ?_⟩
  · rw [fieldRecord_eq, Step.exec_bind, hname]
    rfl
  · exact ⟨hn.allocator, hn.renamed, hn.tally_renamed, hn.decided, hn.resolved⟩

theorem follows_withNames {n : Naming} {methods : List MethodId} {name : String}
    (hn : Follows R n₀ n) (h : ∀ k ∈ methods, R.method k = name) :
    Follows R n₀ (n.withNames methods name) := by
  refine ⟨hn.allocator, hn.renamed, hn.tally_renamed, hn.decided, ?_⟩
  intro k name' hk
  unfold withNames at hk
  rw [Assoc.get?_insertAll] at hk
  split at hk
  · rename_i hmem
    cases hk
    exact (h k hmem).symm
  · exact hn.resolved k name' hk

/-- If all methods with a name have that of the roster, then a method whose only candidate is
its name there is resolved to it, and some of its family with it. -/
theorem exec_resolve_adopted {origins : List String}
    (hc : l.candidates c m = [⟨R.method m, origins⟩])
    (ho : Category.ofMethod.owns (R.method m) = true)
    (hfamily : ∀ k ∈ m :: l.graph.family c m, R.method k = R.method m) {n : Naming}
    (hn : ∀ k name, n.resolved.get? k = some name → name = R.method k) (memory : μ) :
    ∃ methods, (∀ k ∈ methods, k ∈ m :: l.graph.family c m) ∧
      (resolve l policy c m).exec (n, memory) =
        (.ok (R.method m), n.withNames methods (R.method m), memory) := by
  have hcall := call_of_resolve l policy c m n memory
  rcases hx : (resolve l policy c m).exec (n, memory) with ⟨answer, n', memory'⟩
  rw [hx] at hcall
  cases hcall with
  | known hk =>
    rw [hn m _ hk]
    exact ⟨[], by simp, rfl⟩
  | inherited hk hf hname =>
    rw [(hn _ _ hname).trans (hfamily _ (List.mem_cons_of_mem _ hf))]
    exact ⟨[m], by simp, rfl⟩
  | settled hu hc' hsettling =>
    rw [hc] at hc'
    cases hsettling with
    | fresh => cases hc'
    | adopted =>
      cases hc'
      exact ⟨_, fun _ hk => hk, rfl⟩
    | stale hno =>
      cases hc'
      rw [ho] at hno
      cases hno
    | refused hno =>
      rename_i candidate? problem ha
      rcases candidate? with _ | candidate
      · cases hc'
      · cases hc'
        have := hno _ rfl
        rw [ho] at this
        cases this
  | undecided hu hc' => rw [hc] at hc'; simp at hc'
  | misplaced hu hc' => rw [hc] at hc'; simp at hc'
  | decided hu hc' => rw [hc] at hc'; simp at hc'

theorem gives_resolve (h : R.Known settings l) (hg : l.graph.Coherent)
    (hm : m ∈ writtenMethods settings c l.graph)
    (hs : isScrambledMethod (l.graph.method m).name = true) :
    Gives R n₀ (resolve l policy c m) (R.method m) := by
  obtain ⟨howns, origins, hcandidates⟩ := h.method c m hm hs
  have hfamily : ∀ k ∈ m :: l.graph.family c m, R.method k = R.method m := by
    obtain ⟨_, hlt, rfl, _⟩ := (mem_writtenMethods hg).1 hm
    intro k hk
    rcases List.mem_cons.1 hk with rfl | hk
    · rfl
    · exact h.family m hlt k hk
  intro n memory hn
  obtain ⟨methods, hsub, hx⟩ :=
    @exec_resolve_adopted μ R l policy c m _ hcandidates howns hfamily n hn.resolved memory
  exact ⟨_, hx, follows_withNames hn fun k hk => hfamily k (hsub k hk)⟩

theorem gives_methodRecord (h : R.Known settings l) (hg : l.graph.Coherent)
    (hm : m ∈ writtenMethods settings c l.graph) :
    Gives R n₀ (methodRecord l policy c m) (R.methodRecord l.graph c m) := by
  have hname : Gives R n₀ (newMethodName l policy c m) (R.methodName l.graph m) := by
    unfold newMethodName Roster.methodName
    rcases hs : isScrambledMethod (l.graph.method m).name with _ | _
    · exact .pure _
    · exact gives_resolve h hg hm hs
  rw [methodRecord_eq]
  apply hname.bind
  refine Gives.bind (gives_count ?_ ?_) (.pure _)
  · intro _
    rfl
  · intro _
    rfl

/-! ## The whole run -/

theorem gives_classRecords (h : R.Known settings l) (hg : l.graph.Coherent)
    (hincludes : settings.includes = []) (hc : c < l.graph.classCount) :
    Gives R n₀ (classRecords settings l policy c (R.target c))
      (R.classRecords settings l.graph c) := by
  have hfields : ∀ f ∈ writtenFields settings c l.graph,
      Gives R n₀ ((fieldRecord l (l.graph.className c) f).onFirst : Step (Naming × μ) Record)
        (R.fieldRecord l.graph c f) := by
    intro f hf
    exact gives_fieldRecord h hg hc hf
  have hmethods : ∀ m ∈ writtenMethods settings c l.graph,
      Gives R n₀ (methodRecord l policy c m) (R.methodRecord l.graph c m) := by
    intro m hm
    exact gives_methodRecord h hg hm
  rw [classRecords_eq _ _ _ _ _ (isIncluded_of_nil _ hincludes _)]
  refine Gives.bind (gives_count ?_ ?_) ?_
  · intro _
    rfl
  · intro _
    rfl
  · apply (Gives.mapM hfields).bind
    apply (Gives.mapM hmethods).bind
    exact .pure _

theorem gives_records (h : R.Known settings l) (hg : l.graph.Coherent)
    (hincludes : settings.includes = []) {c k : Nat} (hk : c + k = l.graph.classCount) :
    Gives R n₀ (records settings l policy (R.classes.take c) (List.range' c k))
      ((List.range' c k).flatMap (R.classRecords settings l.graph)) := by
  induction k generalizing c with
  | zero => exact .pure _
  | succ k ih =>
    have hc : c < l.graph.classCount := by omega
    obtain ⟨t, hfull, ht⟩ := @gives_classTarget μ R n₀ settings l c h hc
    have htake : R.classes.take c ++ [R.target c] = R.classes.take (c + 1) := by
      have hlen : c < R.classes.length := by rw [h.length_classes]; exact hc
      rw [List.take_succ_eq_append_getElem hlen, Roster.target, List.getD_eq_getElem _ _ hlen]
    rw [List.range'_succ, List.flatMap_cons]
    have haround : surroundings settings l.graph (R.classes.take c) c =
        surroundings settings l.graph R.classes c := by
      apply surroundings_congr
      intro o ho
      rw [List.getD_eq_getElem?_getD, List.getD_eq_getElem?_getD,
        List.getElem?_take_of_lt (hg.outer_lt c o ho)]
    unfold records
    rw [haround]
    apply ht.bind
    rw [hfull, htake]
    apply (gives_classRecords h hg hincludes hc).bind
    exact (ih (by omega)).bind (.pure _)

/-- When all symbols are known, a run gives the records of the roster. -/
theorem gives_allRecords (h : R.Known settings l) (hg : l.graph.Coherent)
    (hincludes : settings.includes = []) :
    Gives R n₀ (allRecords settings l policy) (R.records settings l.graph) := by
  rw [allRecords_eq _ _ _ hincludes]
  unfold Roster.records Graph.classIds
  rw [List.range_eq_range']
  exact gives_records h hg hincludes (Nat.zero_add _)

end Session

end StableNames
