-- Every run that succeeds has a roster: the names in its records are what
-- its last state holds. Classes and fields have sourced names, methods
-- those of their families, and all of them are clean. If the policy chose
-- marked names only, then all names of members carry their marker.
import StableNames.Proofs.Graph.WellFormed
import StableNames.Proofs.Session.Roster
import StableNames.Proofs.Session.Sources

namespace StableNames

open Naming

namespace Lineage

/-- The new name of a scrambled field, given the numbers at the end. -/
def fieldNameIn (l : Lineage) (n : Naming) (f : FieldId) : String :=
  n.nameIn (.ofField f) .ofField (l.knownField? f)

/-- The roster of a run, given the classes and the state at the end. -/
def roster (l : Lineage) (n : Naming) (classes : List String) : Roster where
  classes := classes
  field := l.fieldNameIn n
  method m := (n.resolved.get? m).getD ""

/-- The name of a field that is written is sourced. -/
def FieldGood (l : Lineage) (n : Naming) (f : FieldId) : Prop :=
  isScrambledField (l.graph.field f).name = true →
    n.Sourced (.ofField f) .ofField (l.knownField? f) (l.fieldNameIn n f)

/-- The name of a method that is written is settled. -/
def MethodGood (l : Lineage) (n : Naming) (m : MethodId) : Prop :=
  isScrambledMethod (l.graph.method m).name = true → ∃ name, n.resolved.get? m = some name

/-- All members of a class that is written have their names. -/
structure ClassGood (settings : Settings) (l : Lineage) (n : Naming) (c : ClassId) : Prop where
  fields : ∀ f ∈ Session.writtenFields settings c l.graph, l.FieldGood n f
  methods : ∀ m ∈ Session.writtenMethods settings c l.graph, l.MethodGood n m

/-- All names that methods may take over are clean. -/
def CleanCandidates (l : Lineage) : Prop :=
  ∀ m < l.graph.methodCount, ∀ candidate ∈ l.candidates (l.graph.method m).owner m,
    CleanName candidate.name

theorem cleanCandidates {l : Lineage} (hg : l.graph.Coherent) (hl : l.chain.Clean)
    (hclean : l.graph.CleanNames) : l.CleanCandidates :=
  fun _ hm _ hc => clean_of_mem_candidates hg hl (fun n hn => (hclean.clean_method n hn).1) hm hc

end Lineage

namespace Session

variable {μ : Type} {g : Graph} {settings : Settings} {l : Lineage} {policy : Policy μ}
  {I : Naming → μ → Prop} {c : ClassId} {m : MethodId}

/-! ## Members -/

theorem runs_fieldRecord (hI : Kept l policy I) (f : FieldId) (targets : List String) :
    Runs I ((fieldRecord l (l.graph.className c) f).onFirst : Step (Naming × μ) Record)
      fun N r => r = (l.roster N targets).fieldRecord l.graph c f ∧ l.FieldGood N f := by
  have hname : Quiet (newFieldName l f) fun N name =>
      name = (l.roster N targets).fieldName l.graph f ∧ l.FieldGood N f := by
    unfold newFieldName Roster.fieldName Lineage.FieldGood
    by_cases hs : isScrambledField (l.graph.field f).name = true
    · simp only [hs, if_true]
      apply (quiet_fieldName f).mono
      intro N name hsource
      have heq : name = l.fieldNameIn N f := hsource.eq_nameIn
      exact ⟨heq, fun _ => heq ▸ hsource⟩
    · simp only [hs]
      exact .pure fun _ => ⟨rfl, fun h => absurd h Bool.false_ne_true⟩
  refine Runs.onFirst ?_ hI
  rw [fieldRecord_eq]
  apply hname.bind
  intro name
  apply (quiet_count _).bind
  intro _
  apply Quiet.pure
  rintro N _ ⟨rfl, hgood⟩
  exact ⟨rfl, hgood⟩

variable (hI : Kept l policy I)

include hI

theorem runs_resolve (hm : m < l.graph.methodCount) :
    Runs I (Naming.resolve l policy (l.graph.method m).owner m)
      fun N name => N.resolved.get? m = some name := by
  intro n memory answer n' memory' hn hx
  have hcall := call_of_resolve l policy (l.graph.method m).owner m n memory
  rw [hx] at hcall
  refine ⟨hI.call hn hm hcall, hcall.retains, ?_⟩
  intro name hname N hN
  rw [hname] at hcall
  exact hN.resolved _ _ hcall.named

theorem runs_methodRecord (hm : m < l.graph.methodCount) (targets : List String) :
    Runs I (methodRecord l policy (l.graph.method m).owner m) fun N r =>
      r = (l.roster N targets).methodRecord l.graph (l.graph.method m).owner m ∧
        l.MethodGood N m := by
  have hname : Runs I (newMethodName l policy (l.graph.method m).owner m)
      fun N name => name = (l.roster N targets).methodName l.graph m ∧ l.MethodGood N m := by
    unfold newMethodName Roster.methodName Lineage.MethodGood
    rcases hs : isScrambledMethod (l.graph.method m).name with _ | _
    · exact .pure fun N => ⟨rfl, by simp⟩
    · apply (runs_resolve hI hm).mono
      intro N name hN
      refine ⟨?_, fun _ => ⟨name, hN⟩⟩
      simp only [if_true, Lineage.roster]
      rw [hN, Option.getD_some]
  rw [methodRecord_eq]
  apply hname.bind
  intro name
  apply (runs_count hI _).bind
  intro _
  apply Runs.pure
  rintro N _ ⟨rfl, hgood⟩
  exact ⟨rfl, hgood⟩

/-! ## The whole run -/

variable (hg : l.graph.Coherent)

include hg

theorem runs_classRecords (target : String) (targets : List String)
    (htarget : targets.getD c "" = target) :
    Runs I (classRecords settings l policy c target) fun N rs =>
      rs = (if included settings l.graph c then
          (l.roster N targets).classRecords settings l.graph c else []) ∧
        (included settings l.graph c = true → l.ClassGood settings N c) := by
  rcases hincluded : included settings l.graph c with _ | _
  · rw [classRecords_of_not_included _ _ _ _ _ hincluded]
    exact .pure fun _ => ⟨rfl, by simp⟩
  · have hmethods : ∀ m ∈ writtenMethods settings c l.graph,
        Runs I (methodRecord l policy c m) fun N r =>
          r = (l.roster N targets).methodRecord l.graph c m ∧ l.MethodGood N m := by
      intro m hm
      obtain ⟨_, hlt, rfl, _⟩ := (mem_writtenMethods hg).1 hm
      exact runs_methodRecord hI hlt targets
    rw [classRecords_eq _ _ _ _ _ hincluded]
    apply (runs_count hI _).bind
    intro _
    apply (Runs.mapM fun f _ => runs_fieldRecord hI f targets).bind
    intro fs
    apply (Runs.mapM hmethods).bind
    intro ms
    apply Runs.pure
    rintro N ⟨rfl, hms⟩ ⟨rfl, hfs⟩ _
    subst htarget
    exact ⟨rfl, fun _ => ⟨hfs, hms⟩⟩

omit hI hg in
theorem classRecords_roster_congr {n : Naming} {targets targets' : List String}
    (h : targets.getD c "" = targets'.getD c "") :
    (l.roster n targets).classRecords settings g c =
      (l.roster n targets').classRecords settings g c := by
  unfold Roster.classRecords Roster.target
  simp only [Lineage.roster, h]
  rfl

theorem runs_records {c k : Nat} (hk : c + k = l.graph.classCount) (targets : List String)
    (hlen : targets.length = c) :
    Runs I (records settings l policy targets (List.range' c k)) fun N rs =>
      ∃ more, more.length = k ∧
        rs = ((List.range' c k).filter (included settings l.graph)).flatMap
          ((l.roster N (targets ++ more)).classRecords settings l.graph) ∧
        ∀ d ∈ List.range' c k,
          (included settings l.graph d = true → l.ClassGood settings N d) ∧
          l.Targeted settings N d (surroundings settings l.graph (targets ++ more) d)
            ((targets ++ more).getD d "") := by
  induction k generalizing c targets with
  | zero => exact .pure fun N => ⟨[], rfl, rfl, by simp⟩
  | succ k ih =>
    have hget : ∀ (t : String) (more : List String), (targets ++ t :: more).getD c "" = t := by
      intro t more
      subst hlen
      simp
    rw [List.range'_succ]
    unfold records
    apply (Runs.onFirst (quiet_classTarget _) hI).bind
    intro t
    apply (runs_classRecords hI hg t.full (targets ++ [t.full]) (hget _ _)).bind
    intro here
    have hrest : c + 1 + k = l.graph.classCount := by omega
    apply (ih hrest (targets ++ [t.full]) (by simp [hlen])).bind
    intro later
    apply Runs.pure
    rintro N ⟨more, hmore, rfl, hlater⟩ ⟨rfl, hhere⟩ htarget
    rw [← List.append_cons] at hlater
    refine ⟨t.full :: more, by simp [hmore], ?_, ?_⟩
    · rw [List.filter_cons, ← List.append_cons]
      split
      · rw [List.flatMap_cons,
          classRecords_roster_congr ((hget t.full []).trans (hget t.full more).symm)]
      · rfl
    · refine List.forall_mem_cons.2 ⟨⟨hhere, ?_⟩, hlater⟩
      have haround : surroundings settings l.graph (targets ++ t.full :: more) c =
          surroundings settings l.graph targets c := by
        apply surroundings_congr
        intro o ho
        have hlt : o < targets.length := hlen ▸ hg.outer_lt c o ho
        exact List.getD_append _ _ _ _ hlt
      rw [hget, haround]
      exact htarget

theorem runs_allRecords :
    Runs I (allRecords settings l policy) fun N rs =>
      ∃ classes : List String, classes.length = l.graph.classCount ∧
        rs = (l.roster N classes).recordsOn settings l.graph (included settings l.graph) ∧
        ∀ c < l.graph.classCount,
          (included settings l.graph c = true → l.ClassGood settings N c) ∧
          l.Targeted settings N c (surroundings settings l.graph classes c)
            (classes.getD c "") := by
  have hrecords : Runs I (records settings l policy [] l.graph.classIds) fun N rs =>
      ∃ classes : List String, classes.length = l.graph.classCount ∧
        rs = (l.roster N classes).recordsOn settings l.graph (included settings l.graph) ∧
        ∀ c < l.graph.classCount,
          (included settings l.graph c = true → l.ClassGood settings N c) ∧
          l.Targeted settings N c (surroundings settings l.graph classes c)
            (classes.getD c "") := by
    unfold Roster.recordsOn Graph.classIds
    rw [List.range_eq_range']
    apply (runs_records hI hg (Nat.zero_add _) [] rfl).mono
    rintro N rs ⟨classes, hlen, hrs, hgood⟩
    refine ⟨classes, hlen, hrs, ?_⟩
    intro c hc
    exact hgood c (by simpa using hc)
  unfold allRecords
  simp only
  split
  · have hreport : Quiet (Naming.report (.info ("[GEN] Include filter: " ++
        ", ".intercalate (settings.includes.map (·.source))))) fun _ _ => True :=
      .modify (fun _ => rfl) (fun _ => rfl)
    apply (Runs.onFirst hreport hI).bind
    intro _
    apply hrecords.mono
    intro N rs hrs _
    exact hrs
  · exact hrecords

end Session

/-! ## What a run comes to -/

/-- What the last state of a run and the new names of its classes say about each other. -/
structure Lineage.Outcome (l : Lineage) (settings : Settings) (n : Naming)
    (classes : List String) : Prop where
  length_classes : classes.length = l.graph.classCount
  target : ∀ c < l.graph.classCount, l.Targeted settings n c
    (Session.surroundings settings l.graph classes c) (classes.getD c "")
  members : ∀ c < l.graph.classCount, Session.included settings l.graph c = true →
    l.ClassGood settings n c
  clean : n.NamesAll CleanName
  uniform : l.graph.KeysDistinct → Uniform l.graph n

namespace Session

variable {μ : Type} {settings : Settings} {l : Lineage} {policy : Policy μ}

theorem generate_eq_ok {s s' : Session} {memory memory' : μ} {out : Generated}
    (h : s.generate policy memory = (.ok out, s', memory')) :
    ∃ rs, (allRecords s.settings s.lineage policy).exec (s.naming, memory) =
      (.ok rs, s'.naming, memory') ∧ out = result s'.naming rs := by
  unfold generate at h
  rcases hx : (allRecords s.settings s.lineage policy).exec (s.naming, memory) with
    ⟨_ | rs, n', memory''⟩
  · rw [hx] at h
    cases h
  · rw [hx] at h
    cases h
    exact ⟨rs, rfl, rfl⟩

/-- A run from a new session has an outcome, and its result is the records of the roster. Its
numbers start with the counters it was given. All names of methods are marked if all choices
of the policy were. -/
theorem exists_outcome_of_candidates {counters : List (Category × Nat)} {memory memory' : μ}
    {s' : Session} {out : Generated} (hg : l.graph.Coherent) (hclean : l.CleanCandidates)
    (hrun : (applyCounters { settings, lineage := l } counters).generate policy memory =
      (.ok out, s', memory')) :
    ∃ classes, l.Outcome settings s'.naming classes ∧
      s'.naming.allocator.Tidy (Counters.setAll {} counters) ∧
      (((applyCounters { settings, lineage := l } counters).asked policy memory).Marked →
        s'.naming.Marked) ∧
      out = result s'.naming
        ((l.roster s'.naming classes).recordsOn settings l.graph (included settings l.graph)) := by
  unfold asked
  rw [generate_eq_tracedRun] at hrun
  rcases htraced : (applyCounters { settings, lineage := l } counters).tracedRun policy memory
    with ⟨answer, s₁, memory₁, talk⟩
  rw [htraced] at hrun
  cases hrun
  obtain ⟨rs, hx, rfl⟩ := generate_eq_ok htraced
  obtain ⟨hsane, hretains, hN⟩ := runs_allRecords (kept_sane hg hclean) hg _ _ _ _ _
    (sane_of_resolved_eq rfl) hx
  obtain ⟨classes, hlen, rfl, hgood⟩ := hN rs rfl _ (.refl _)
  refine ⟨classes, ⟨hlen, fun c hc => (hgood c hc).2, fun c hc => (hgood c hc).1, hsane.clean,
    hsane.uniform⟩, hretains.tidy _ ?_, hsane.marked, rfl⟩
  exact @Allocator.tidy_of_numbers_eq
    (applyCounters { settings, lineage := l } counters).naming.allocator rfl

/-- So has a run over clean names. -/
theorem exists_outcome {counters : List (Category × Nat)} {memory memory' : μ} {s' : Session}
    {out : Generated} (hg : l.graph.Coherent) (hclean : l.graph.CleanNames)
    (hl : l.chain.Clean)
    (hrun : (applyCounters { settings, lineage := l } counters).generate policy memory =
      (.ok out, s', memory')) :
    ∃ classes, l.Outcome settings s'.naming classes ∧
      s'.naming.allocator.Tidy (Counters.setAll {} counters) ∧
      (((applyCounters { settings, lineage := l } counters).asked policy memory).Marked →
        s'.naming.Marked) ∧
      out = result s'.naming
        ((l.roster s'.naming classes).recordsOn settings l.graph (included settings l.graph)) :=
  exists_outcome_of_candidates hg (Lineage.cleanCandidates hg hl hclean) hrun

end Session

/-! ## Rosters of runs -/

/-- A target that a run may give to the class `c` behind `around`: its own name if it keeps
it, or else a marked part in a fitting place. -/
structure Session.GoodTarget (settings : Settings) (g : Graph) (c : ClassId)
    (around full : String) : Prop where
  kept : keepsName settings (g.classInfo c) = true → full = g.className c
  renamed : keepsName settings (g.classInfo c) = false → ∃ place own,
    full = placeOf settings (g.className c) place ++ own ∧ (place = around ∨ place = "") ∧
      Category.ofClass.owns own = true ∧ '$' ∉ own.toList ∧ CleanName own

theorem Lineage.Targeted.good {l : Lineage} {settings : Settings} {n : Naming} {c : ClassId}
    {around full : String} (h : l.Targeted settings n c around full) (hl : l.chain.Clean)
    (hc : CleanName (l.graph.className c)) :
    Session.GoodTarget settings l.graph c around full where
  kept := h.kept
  renamed hkeep := by
    obtain ⟨own, hown, hfull⟩ := h.renamed hkeep
    refine ⟨_, own, hfull, l.placeFor_cases c around, hown.owns, ?_,
      hown.clean (Lineage.clean_knownPart? hl hc)⟩
    cases hown with
    | adopted hk => exact Lineage.dollar_not_mem_knownPart? _ hk
    | numbered => exact Category.dollar_not_mem_name _ _

/-- A roster whose names can all be written, as far as the classes that `p` picks go: class
names are put together well, names of fields carry their marker, and all of them are clean. -/
structure Roster.WellMade (R : Roster) (settings : Settings) (g : Graph)
    (p : ClassId → Bool) : Prop where
  length_classes : R.classes.length = g.classCount
  target : ∀ c < g.classCount, Session.GoodTarget settings g c
    (Session.surroundings settings g R.classes c) (R.target c)
  field : ∀ c, p c = true → ∀ f ∈ Session.writtenFields settings c g,
    isScrambledField (g.field f).name = true →
      Category.ofField.owns (R.field f) = true ∧ CleanName (R.field f)
  method : ∀ c, p c = true → ∀ m ∈ Session.writtenMethods settings c g,
    isScrambledMethod (g.method m).name = true → CleanName (R.method m)

/-- All that a roster of a graph should be: it is well made, names of methods carry their
marker, and families have one name. -/
structure Roster.SoundOn (R : Roster) (settings : Settings) (g : Graph) (p : ClassId → Bool) :
    Prop extends R.WellMade settings g p where
  owns_method : ∀ c, p c = true → ∀ m ∈ Session.writtenMethods settings c g,
    isScrambledMethod (g.method m).name = true → Category.ofMethod.owns (R.method m) = true
  family : ∀ m < g.methodCount, ∀ k ∈ g.family (g.method m).owner m, R.method k = R.method m

/-- The roster is sound for all classes. -/
def Roster.Sound (R : Roster) (settings : Settings) (g : Graph) : Prop :=
  R.SoundOn settings g fun _ => true

namespace Lineage.Outcome

variable {l : Lineage} {settings : Settings} {n : Naming} {classes : List String}

theorem wellMade (h : l.Outcome settings n classes) (hg : l.graph.Coherent)
    (hl : l.chain.Clean) (hclean : l.graph.CleanNames) :
    (l.roster n classes).WellMade settings l.graph (Session.included settings l.graph) where
  length_classes := h.length_classes
  target c hc := (h.target c hc).good hl (hclean.clean_class c hc)
  field c hp f hf hs := by
    obtain ⟨_, hlt, rfl⟩ := (Session.mem_writtenFields hg).1 hf
    have hsource := (h.members _ (hg.field_owner_lt f hlt) hp).fields f hf hs
    refine ⟨hsource.owns, hsource.clean ?_⟩
    intro name hname _
    exact Lineage.clean_knownField? hl (hclean.clean_field f hlt).1 name hname
  method c hp m hm hs := by
    obtain ⟨_, hlt, rfl, _⟩ := (Session.mem_writtenMethods hg).1 hm
    obtain ⟨name, hname⟩ := (h.members _ (hg.owner_lt m hlt) hp).methods m hm hs
    unfold Lineage.roster
    simp only
    rw [hname]
    exact h.clean m name hname

theorem soundOn (h : l.Outcome settings n classes) (hg : l.graph.Coherent)
    (hl : l.chain.Clean) (hclean : l.graph.CleanNames) (hkeys : l.graph.KeysDistinct)
    (hmarked : n.Marked) :
    (l.roster n classes).SoundOn settings l.graph (Session.included settings l.graph) where
  toWellMade := h.wellMade hg hl hclean
  owns_method c hp m hm hs := by
    obtain ⟨_, hlt, rfl, _⟩ := (Session.mem_writtenMethods hg).1 hm
    obtain ⟨name, hname⟩ := (h.members _ (hg.owner_lt m hlt) hp).methods m hm hs
    unfold Lineage.roster
    simp only
    rw [hname]
    exact hmarked m name hname
  family m hm k hk := by
    unfold Lineage.roster
    simp only
    rcases h.uniform hkeys m hm with hu | ⟨name, hname⟩
    · rw [hu k hk, hu m (Graph.self_mem_family hg hkeys hm)]
    · rw [hname k hk, hname m (Graph.self_mem_family hg hkeys hm)]

end Lineage.Outcome

end StableNames
