-- Markers. Whatever a class or a field is named after, its new name has the
-- marker: an earlier name without one makes way for a number. The same
-- goes for methods as long as nobody is asked. A name that was chosen among
-- several stands as it is, with the marker or without, and this is the only
-- way in which a name without one gets into a text.
import Mathlib.Data.List.Permutation
import StableNames.Proofs.Naming.Choices
import StableNames.Proofs.Session.Records

namespace StableNames

namespace Session

open Naming

variable {μ α β : Type} {settings : Settings} {l : Lineage} {policy : Policy μ} {c : ClassId}
  {m : MethodId} {talk : Talk}

/-! ## Records -/

/-- If the class is renamed, then its target has the marker, and not only in the name of the
class around it. A part of an earlier name that has none makes way for a number. -/
def MarkedClass (settings : Settings) (l : Lineage) (c : ClassId) (target : String) : Prop :=
  keepsName settings (l.graph.classInfo c) = false →
    Category.ofClass.owns target = true ∧
    ∃ place own, target = place ++ own ∧ Category.ofClass.owns own = true ∧
      ∀ part ∈ l.knownPart? c, Category.ofClass.owns part = false →
        ∃ k, own = Category.ofClass.name k

theorem markedClass_of_targeted {n : Naming} {around full : String}
    (h : l.Targeted settings n c around full) : MarkedClass settings l c full := by
  intro hrenamed
  obtain ⟨own, hown, rfl⟩ := h.renamed hrenamed
  refine ⟨Category.owns_append _ hown.owns, _, own, rfl, hown.owns, ?_⟩
  intro part hpart hno
  cases hown with
  | adopted hk ho =>
    obtain rfl := Option.some.inj (hk.symm.trans hpart)
    rw [ho] at hno
    cases hno
  | numbered => exact ⟨_, rfl⟩

/-- The record of a renamed symbol has a target with the marker, or with a name that was chosen
if it is a method. -/
def MarkedRecord (settings : Settings) (l : Lineage) (talk : Talk) : Record → Prop
  | .ofClass source target =>
    ∃ c ∈ l.graph.classIds, source = l.graph.className c ∧ MarkedClass settings l c target
  | .ofField _ _ source target =>
    isScrambledField source = true → Category.ofField.owns target = true
  | .ofMethod _ _ source target => isScrambledMethod source = true →
    Category.ofMethod.owns target = true ∨ talk.Chose target
  | .verbatim _ => False

/-- The record is that of the method that the conflict is about, and has the name that was
chosen there. -/
def DecidedBy (e : Conflict × Except Problem Nat) : Record → Prop
  | .ofMethod owner desc source target =>
    isScrambledMethod source = true ∧ e.1.symbol = (⟨owner, source, desc⟩ : Member).label ∧
      Picks e target
  | _ => False

/-- All records have their markers, and each conflict decides a record. -/
structure Accounts (settings : Settings) (l : Lineage) (talk new : Talk) (rs : List Record) :
    Prop where
  marked : ∀ r ∈ rs, MarkedRecord settings l talk r
  decided : ∀ e ∈ new, ∃ r ∈ rs, DecidedBy e r

theorem Accounts.append {new new' : Talk} {rs rs' : List Record}
    (h : Accounts settings l talk new rs) (h' : Accounts settings l talk new' rs') :
    Accounts settings l talk (new ++ new') (rs ++ rs') := by
  constructor
  · intro r hr
    rcases List.mem_append.1 hr with hr | hr
    · exact h.marked r hr
    · exact h'.marked r hr
  · intro e he
    rcases List.mem_append.1 he with he | he
    · obtain ⟨r, hr, hdecided⟩ := h.decided e he
      exact ⟨r, List.mem_append_left _ hr, hdecided⟩
    · obtain ⟨r, hr, hdecided⟩ := h'.decided e he
      exact ⟨r, List.mem_append_right _ hr, hdecided⟩

/-! ## Steps that ask -/

/-- The step adds to the talk what it asks. If that belongs to `talk`, then names that are backed
by `talk` stay so, also when the step fails, and `P` is so for what was asked and what it gives. -/
def Tells (talk : Talk) (x : Step (Naming × μ × Talk) α) (P : Talk → α → Prop) : Prop :=
  ∀ n memory, ∃ new, (x.exec (n, memory)).2.2.2 = memory.2 ++ new ∧
    (new ⊆ talk → n.Backed talk → (x.exec (n, memory)).2.1.Backed talk ∧
      ∀ a, (x.exec (n, memory)).1 = .ok a → P new a)

namespace Tells

variable {P : Talk → α → Prop} {Q : Talk → β → Prop}

theorem pure {a : α} (h : P [] a) : Tells talk (pure a : Step (Naming × μ × Talk) α) P := by
  intro n memory
  refine ⟨[], (List.append_nil _).symm, fun _ hn => ⟨hn, ?_⟩⟩
  intro a' ha
  cases ha
  exact h

theorem bind {x : Step (Naming × μ × Talk) α} {f : α → Step (Naming × μ × Talk) β}
    (hx : Tells talk x P)
    (hf : ∀ a, Tells talk (f a) fun new b => ∀ before, P before a → Q (before ++ new) b) :
    Tells talk (x >>= f) Q := by
  intro n memory
  obtain ⟨before, hbefore, hxkeeps⟩ := hx n memory
  rw [Step.exec_bind]
  rcases hxn : x.exec (n, memory) with ⟨problem | a, n₁, memory₁⟩
  · rw [hxn] at hbefore hxkeeps
    refine ⟨before, hbefore, fun hsub hn => ⟨(hxkeeps hsub hn).1, ?_⟩⟩
    intro b hb
    cases hb
  · rw [hxn] at hbefore hxkeeps
    obtain ⟨new, hnew, hfkeeps⟩ := hf a n₁ memory₁
    refine ⟨before ++ new, ?_, ?_⟩
    · rw [← List.append_assoc, ← hbefore]
      exact hnew
    · intro hsub hn
      obtain ⟨hn₁, hP⟩ := hxkeeps (fun e he => hsub (List.mem_append_left _ he)) hn
      obtain ⟨hn', hQ⟩ := hfkeeps (fun e he => hsub (List.mem_append_right _ he)) hn₁
      exact ⟨hn', fun b hb => hQ b hb before (hP a rfl)⟩

theorem mono {P' : Talk → α → Prop} {x : Step (Naming × μ × Talk) α} (hx : Tells talk x P)
    (h : ∀ new a, P new a → P' new a) : Tells talk x P' := by
  intro n memory
  obtain ⟨new, hnew, hkeeps⟩ := hx n memory
  refine ⟨new, hnew, fun hsub hn => ⟨(hkeeps hsub hn).1, ?_⟩⟩
  intro a ha
  exact h new a ((hkeeps hsub hn).2 a ha)

/-- Nothing is asked by a step that names no method. -/
theorem onFirst {P : α → Prop} {x : Step Naming α} (h : Quiet x fun _ => P) :
    Tells talk (x.onFirst : Step (Naming × μ × Talk) α) fun new a => new = [] ∧ P a := by
  intro n memory
  obtain ⟨hresolved, _, hP⟩ := h n _ _ rfl
  refine ⟨[], (List.append_nil _).symm, fun _ hn => ⟨hn.congr hresolved, ?_⟩⟩
  intro a ha
  exact ⟨rfl, hP a ha _ (.refl _)⟩

/-- What is so for each item and for what is asked about it, is so for the whole list. -/
theorem mapM {ι : Type} {f : ι → Step (Naming × μ × Talk) α} {A : α → Prop}
    {B : Conflict × Except Problem Nat → α → Prop} {is : List ι}
    (h : ∀ i ∈ is, Tells talk (f i) fun new a => A a ∧ ∀ e ∈ new, B e a) :
    Tells talk (is.mapM f) fun new as => (∀ a ∈ as, A a) ∧ ∀ e ∈ new, ∃ a ∈ as, B e a := by
  induction is with
  | nil => exact .pure (by simp)
  | cons i is ih =>
    rw [List.mapM_cons]
    apply (h i List.mem_cons_self).bind
    intro a
    have htail := ih fun j hj => h j (List.mem_cons_of_mem _ hj)
    apply htail.bind
    intro as
    apply Tells.pure
    rintro later ⟨has, hlater⟩ before ⟨ha, hbefore⟩
    refine ⟨List.forall_mem_cons.2 ⟨ha, has⟩, ?_⟩
    intro e he
    rw [List.append_nil, List.mem_append] at he
    rcases he with he | he
    · exact ⟨a, List.mem_cons_self, hbefore e he⟩
    · obtain ⟨a', ha', hB⟩ := hlater e he
      exact ⟨a', List.mem_cons_of_mem _ ha', hB⟩

end Tells

theorem tells_count (f : Tally → Tally) :
    Tells talk ((count f).onFirst : Step (Naming × μ × Talk) Unit) fun new _ => new = [] :=
  (Tells.onFirst (quiet_count f)).mono fun _ _ h => h.1

/-- A call gives a name that has the marker or was chosen, and if something was asked, then it
gives what was chosen. -/
theorem tells_resolve : Tells talk (resolve l policy.traced c m) fun new name =>
    (Category.ofMethod.owns name = true ∨ talk.Chose name) ∧
      ∀ e ∈ new, e.1 = l.conflict c m ∧ Picks e name := by
  intro n memory
  have hcall := call_of_resolve l policy.traced c m n memory
  obtain ⟨new, hnew, hasked⟩ := hcall.exists_asked
  refine ⟨new, hnew, ?_⟩
  intro hsub hn
  have hbacked := hcall.backed hnew hsub hn
  refine ⟨hbacked, ?_⟩
  intro name hname
  rw [hname] at hcall
  refine ⟨hbacked m name hcall.named, ?_⟩
  intro e he
  exact ⟨(hasked e he).1, (hasked e he).2 name hname⟩

theorem tells_fieldRecord (settings : Settings) (owner : String) (f : FieldId) :
    Tells talk ((fieldRecord l owner f).onFirst : Step (Naming × μ × Talk) Record)
      fun new r => MarkedRecord settings l talk r ∧ ∀ e ∈ new, DecidedBy e r := by
  have hname : Quiet (newFieldName l f) fun _ name =>
      isScrambledField (l.graph.field f).name = true → Category.ofField.owns name = true := by
    unfold newFieldName
    split
    · exact (quiet_fieldName f).mono fun _ _ hsource _ => hsource.owns
    · rename_i hno
      exact .pure fun _ h => absurd h hno
  have hrecord : Quiet (fieldRecord l owner f) fun _ => MarkedRecord settings l talk := by
    rw [fieldRecord_eq]
    apply hname.bind
    intro name
    apply (quiet_count _).bind
    intro _
    exact .pure fun _ _ howns => howns
  apply (Tells.onFirst hrecord).mono
  rintro new r ⟨rfl, hr⟩
  exact ⟨hr, by simp⟩

theorem tells_methodRecord (settings : Settings) :
    Tells talk (methodRecord l policy.traced c m) fun new r =>
      MarkedRecord settings l talk r ∧ ∀ e ∈ new, DecidedBy e r := by
  have hname : Tells talk (newMethodName l policy.traced c m) fun new name =>
      (isScrambledMethod (l.graph.method m).name = true →
        Category.ofMethod.owns name = true ∨ talk.Chose name) ∧
      ∀ e ∈ new, isScrambledMethod (l.graph.method m).name = true ∧ e.1 = l.conflict c m ∧
        Picks e name := by
    unfold newMethodName
    split
    · rename_i hscrambled
      apply tells_resolve.mono
      rintro new name ⟨hmarked, hasked⟩
      exact ⟨fun _ => hmarked, fun e he => ⟨hscrambled, hasked e he⟩⟩
    · rename_i hno
      exact .pure ⟨fun h => absurd h hno, by simp⟩
  rw [methodRecord_eq]
  apply hname.bind
  intro name
  apply (tells_count _).bind
  intro _
  apply Tells.pure
  rintro _ rfl new ⟨hmarked, hasked⟩
  rw [List.append_nil, List.append_nil]
  refine ⟨hmarked, ?_⟩
  intro e he
  obtain ⟨hscrambled, hconflict, hpicks⟩ := hasked e he
  exact ⟨hscrambled, congrArg Conflict.symbol hconflict, hpicks⟩

theorem tells_classRecords (hc : c ∈ l.graph.classIds) (target : String) :
    Tells talk (classRecords settings l policy.traced c target) fun new rs =>
      MarkedClass settings l c target → Accounts settings l talk new rs := by
  rcases h : settings.isIncluded (l.graph.className c) with _ | _
  · rw [classRecords_of_not_included _ _ _ _ _ h]
    exact .pure fun _ => ⟨by simp, by simp⟩
  · rw [classRecords_eq _ _ _ _ _ h]
    apply (tells_count _).bind
    intro _
    apply (Tells.mapM fun f _ => tells_fieldRecord settings _ f).bind
    intro fields
    apply (Tells.mapM fun m _ => tells_methodRecord settings).bind
    intro methods
    apply Tells.pure
    rintro askedOfMethods ⟨hmethods, hdecided⟩ askedOfFields ⟨hfields, hdecided'⟩ _ rfl hclass
    have hhead : Accounts settings l talk [] [.ofClass (l.graph.className c) target] := by
      constructor
      · intro r hr
        rw [List.mem_singleton.1 hr]
        exact ⟨c, hc, rfl, hclass⟩
      · simp
    have hall := (hhead.append ⟨hfields, hdecided'⟩).append ⟨hmethods, hdecided⟩
    simpa using hall

theorem tells_records {classes : List ClassId} (hsub : ∀ c ∈ classes, c ∈ l.graph.classIds)
    (targets : List String) :
    Tells talk (records settings l policy.traced targets classes)
      (Accounts settings l talk) := by
  induction classes generalizing targets with
  | nil => exact .pure ⟨by simp, by simp⟩
  | cons c rest ih =>
    unfold records
    have htarget : ∀ around, Quiet (classTarget settings l c around) fun _ t =>
        MarkedClass settings l c t.full :=
      fun around => (quiet_classTarget around).mono fun _ _ h => markedClass_of_targeted h
    apply (Tells.onFirst (htarget _)).bind
    intro target
    apply (tells_classRecords (hsub c List.mem_cons_self) _).bind
    intro here
    apply (ih (fun d hd => hsub d (List.mem_cons_of_mem _ hd)) _).bind
    intro later
    apply Tells.pure
    rintro askedLater hlater askedHere hhere _ ⟨rfl, htarget⟩
    simpa using (hhere htarget).append hlater

theorem tells_allRecords :
    Tells talk (allRecords settings l policy.traced) (Accounts settings l talk) := by
  unfold allRecords
  simp only
  split
  · have hreport : ∀ notice, Quiet (Naming.report notice) fun _ _ => True :=
      fun _ => .modify (fun _ => rfl) fun _ => rfl
    apply (Tells.onFirst (hreport _)).bind
    intro _
    apply (tells_records (fun _ hc => hc) _).mono
    rintro new rs hrs _ ⟨rfl, _⟩
    exact hrs
  · exact tells_records (fun _ hc => hc) _

/-! ## Sessions -/

/-- A session that runs have left names in, with all that was asked in these runs. What is
prepared between them names no method. -/
inductive Used : Session → Talk → Prop
  | unused {s : Session} (h : s.naming.resolved = ∅) : Used s []
  | prepared {s s' : Session} {talk : Talk} (h : Used s talk)
      (hresolved : s'.naming.resolved = s.naming.resolved) : Used s' talk
  | ran {s : Session} {talk : Talk} {μ : Type} (h : Used s talk) (policy : Policy μ) (memory : μ) :
      Used (s.generate policy memory).2.1 (talk ++ s.asked policy memory)

/-- A run leaves names backed, whether it fails or not, and if it gives something, then its
records have their markers. -/
theorem backed_generate {s : Session} (h : s.naming.Backed talk) (policy : Policy μ)
    (memory : μ) :
    (s.generate policy memory).2.1.naming.Backed (talk ++ s.asked policy memory) ∧
    ∀ out, (s.generate policy memory).1 = .ok out → ∃ rs,
      out.text = textOf rs out.counters ∧
      Accounts s.settings s.lineage (talk ++ s.asked policy memory) (s.asked policy memory) rs := by
  obtain ⟨new, hnew, hkeeps⟩ := @tells_allRecords μ s.settings s.lineage policy
    (talk ++ s.asked policy memory) s.naming (memory, [])
  have hstart := h.mono (List.subset_append_left talk (s.asked policy memory))
  rw [generate_eq_tracedRun]
  unfold asked tracedRun at hstart hkeeps ⊢
  rcases hrun : (allRecords s.settings s.lineage policy.traced).exec (s.naming, memory, []) with
    ⟨problem | rs, n, memory', asked⟩
  · rw [hrun] at hnew hkeeps
    rw [generate_of_exec_error hrun] at hstart hkeeps ⊢
    obtain rfl : asked = new := hnew
    refine ⟨(hkeeps (List.subset_append_right _ _) hstart).1, ?_⟩
    intro out hout
    cases hout
  · rw [hrun] at hnew hkeeps
    rw [generate_of_exec hrun] at hstart hkeeps ⊢
    obtain rfl : asked = new := hnew
    obtain ⟨hbacked, hrecords⟩ := hkeeps (List.subset_append_right _ _) hstart
    refine ⟨hbacked, ?_⟩
    intro out hout
    cases hout
    exact ⟨rs, rfl, hrecords rs rfl⟩

theorem Used.backed {s : Session} (h : Used s talk) : s.naming.Backed talk := by
  induction h with
  | unused h => exact backed_of_resolved_eq h
  | prepared _ hresolved ih => exact ih.congr hresolved
  | ran _ policy memory ih => exact (backed_generate ih policy memory).1

/-- In the text of a run every renamed symbol has a target with its marker, and a class whose
earlier name has none gets a number in its place. The only exception is a method whose name was
chosen in a conflict, in this run or in an earlier one of its session: each choice of this run is
the target of a method, also if it has no marker. -/
theorem only_choices_lack_their_marker {s s' : Session} (hused : Used s talk) {policy : Policy μ}
    {memory memory' : μ} {out : Generated}
    (hgen : s.generate policy memory = (.ok out, s', memory')) :
    ∃ rs, out.text = textOf rs out.counters ∧
      (∀ r ∈ rs, MarkedRecord s.settings s.lineage (talk ++ s.asked policy memory) r) ∧
      ∀ e ∈ s.asked policy memory, ∃ r ∈ rs, DecidedBy e r := by
  have hout : (s.generate policy memory).1 = .ok out := by
    rw [hgen]
  obtain ⟨rs, htext, hmarked, hdecided⟩ := (backed_generate hused.backed policy memory).2 out hout
  exact ⟨rs, htext, hmarked, hdecided⟩

/-- A session that keeps a class with a bridge, with the names of both methods from an earlier
run. -/
def tickingSession : Session where
  settings := { obfuscated := [] }
  lineage.graph := (Graph.ofDocument "" bridgedClass).toOption.getD {}
  lineage.chain.current? := some <| .tables {
    members := .ofList [(⟨"a", "a", "()V"⟩, ⟨"a", "method_1", "()V"⟩),
      (⟨"a", "tick", "()V"⟩, ⟨"a", "tick", "()V"⟩)] }

/-- The records of a run in which the name without a marker is chosen. -/
def tickingRecords : List Record :=
  [.ofClass "a" "a", .ofMethod "a" "()V" "a" "tick", .ofMethod "a" "()V" "tick" "tick"]

theorem candidates_ticking : tickingSession.lineage.candidates 0 0 =
    [⟨"method_1", ["a.a()V"]⟩, ⟨"tick", ["a.tick()V"]⟩] := by
  have hhits : tickingSession.lineage.hits 0 0 =
      [⟨"method_1", "a.a()V"⟩, ⟨"tick", "a.tick()V"⟩] := by
    cbv
  unfold Lineage.candidates
  rw [hhits]
  simp [Candidate.ofHits, sortedSet, List.mergeSort, List.eraseDups_cons]

theorem exists_exec_ticking :
    ∃ n, (allRecords tickingSession.settings tickingSession.lineage Policy.script).exec
      (tickingSession.naming, [2]) = (.ok tickingRecords, n, []) := by
  have hdecision : Policy.script.decide (tickingSession.lineage.conflict 0 0) [2] =
      ⟨.ok 1, [], []⟩ := by
    simp [Policy.script, takeChoice, Conflict.place?, Lineage.conflict, candidates_ticking]
  have hwritten : writtenMethods tickingSession.settings 0 tickingSession.lineage.graph =
      [0, 1] := by
    cbv
  obtain ⟨n, hfirst⟩ := @exists_exec_resolve_chosen _ tickingSession.lineage Policy.script 0 0
    { tally := { classes := 1 } } [2] 1 ⟨"tick", ["a.tick()V"]⟩ rfl
    (by rw [candidates_ticking]; decide) (by rw [hdecision]) (by rw [candidates_ticking]; rfl)
  rw [hdecision] at hfirst
  have hrecord : (methodRecord tickingSession.lineage Policy.script 0 0).exec
      ({ tally := { classes := 1 } }, [2]) = (.ok (.ofMethod "a" "()V" "a" "tick"),
        { n with tally := { n.tally with methods := n.tally.methods + 1 } }, []) := by
    rw [methodRecord_eq]
    exact Step.exec_bind_eq_ok.2 ⟨_, _, hfirst, rfl⟩
  have hclass : (classRecords tickingSession.settings tickingSession.lineage Policy.script 0
      "a").exec ({}, [2]) = (.ok tickingRecords,
        { n with tally := { n.tally with methods := n.tally.methods + 2 } }, []) := by
    rw [classRecords_eq _ _ _ _ _ rfl, hwritten, List.mapM_cons, List.mapM_cons, List.mapM_nil]
    refine Step.exec_bind_eq_ok.2 ⟨(), ({ tally := { classes := 1 } }, [2]), rfl, ?_⟩
    refine Step.exec_bind_eq_ok.2 ⟨[], _, rfl, ?_⟩
    refine Step.exec_bind_eq_ok.2 ⟨tickingRecords.tail, _, ?_, rfl⟩
    exact Step.exec_bind_eq_ok.2 ⟨_, _, hrecord, rfl⟩
  rw [allRecords_eq _ _ _ rfl]
  refine ⟨{ n with tally := { n.tally with methods := n.tally.methods + 2 } }, ?_⟩
  refine Step.exec_bind_eq_ok.2 ⟨⟨"a", ""⟩, ({}, [2]), rfl, ?_⟩
  exact Step.exec_bind_eq_ok.2 ⟨_, _, hclass, rfl⟩

/-- The second candidate is chosen, and so a scrambled method is `tick` in the text. -/
theorem only_choices_lack_their_marker_ticking :
    ∃ out s', tickingSession.generate Policy.script [2] = (.ok out, s', []) ∧
      out.text = textOf tickingRecords out.counters ∧
      ∃ rs, out.text = textOf rs out.counters ∧
        (∀ r ∈ rs, MarkedRecord tickingSession.settings tickingSession.lineage
          ([] ++ tickingSession.asked Policy.script [2]) r) ∧
        ∀ e ∈ tickingSession.asked Policy.script [2], ∃ r ∈ rs, DecidedBy e r := by
  obtain ⟨n, hrun⟩ := exists_exec_ticking
  have hgen := generate_of_exec hrun
  exact ⟨_, _, hgen, rfl, only_choices_lack_their_marker (.unused rfl) hgen⟩

end Session

end StableNames
