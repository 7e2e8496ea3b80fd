-- Documents that have nothing to do with each other. The run over both
-- walks over the first one and then over the second, and in each of them it
-- comes to the symbols that a run over it alone comes to. So it gives the
-- records of two runs, of which the second starts with the counters that
-- the first one ends with.
import StableNames.Proofs.Naming.Parts
import StableNames.Proofs.Session.FirstNumbers

namespace StableNames

open Naming

namespace Session

/-! ## The walk of a part -/

section Walk

variable {settings : Settings} {o : Offset} {g g' : Graph} {c : ClassId} {m : MethodId}
  {s : Symbol}

theorem keepsName_moved (settings : Settings) (h : Graph.Part o g g') (hc : c < g.classCount) :
    keepsName settings (g'.classInfo (o.classes + c)) = keepsName settings (g.classInfo c) := by
  unfold keepsName
  rw [h.isAnonymous_eq hc, show (g'.classInfo (o.classes + c)).name = _ from h.className_eq hc]
  rfl

theorem included_moved (h : Graph.Part o g g') (hc : c < g.classCount) :
    included settings g' (o.classes + c) = included settings g c :=
  congrArg settings.isIncluded (h.className_eq hc)

theorem writtenFields_moved (h : Graph.Part o g g') (hc : c < g.classCount) :
    writtenFields settings (o.classes + c) g' =
      (writtenFields settings c g).map (o.fields + ·) := by
  unfold writtenFields
  split
  · exact h.fields_eq hc
  · rfl

theorem fieldSymbols_moved (h : Graph.Part o g g') {f : FieldId} (hf : f < g.fields.size) :
    fieldSymbols g' (o.fields + f) = (fieldSymbols g f).map (·.moved o) := by
  unfold fieldSymbols
  rw [h.field f hf, show ((g.field f).moved o).name = (g.field f).name from rfl]
  split <;> rfl

theorem methodSymbols_moved (h : Graph.Part o g g') (hm : m < g.methodCount) :
    methodSymbols g' (o.methods + m) = (methodSymbols g m).map (·.moved o) := by
  unfold methodSymbols
  rw [h.method m hm, show ((g.method m).moved o).name = (g.method m).name from rfl]
  split <;> rfl

theorem classSymbols_moved (h : Graph.Part o g g') (hc : c < g.classCount) :
    classSymbols settings g' (o.classes + c) = (classSymbols settings g c).map (·.moved o) := by
  unfold classSymbols
  rw [keepsName_moved settings h hc]
  split <;> rfl

theorem has_of_mem_walk (hg : g.Coherent) (hs : s ∈ walk settings g) : g.Has s := by
  obtain ⟨c, hc, hs | hs⟩ := mem_walk.1 hs
  · obtain ⟨_, rfl⟩ := mem_classSymbols.1 hs
    exact hc
  · rcases (mem_memberSymbols.1 hs).2 with ⟨f, hf, _, rfl⟩ | ⟨m, hm, _, rfl⟩
    · exact ((mem_writtenFields hg).1 hf).2.1
    · exact ((mem_writtenMethods hg).1 hm).2.1

section Coherent

variable (hg : g.Coherent) (hg' : g'.Coherent) (hkeys : g.KeysDistinct)
  (hkeys' : g'.KeysDistinct)

include hg hg' hkeys hkeys'

theorem writtenMethods_moved (h : Graph.Part o g g') (hc : c < g.classCount) :
    writtenMethods settings (o.classes + c) g' =
      (writtenMethods settings c g).map (o.methods + ·) := by
  unfold writtenMethods
  split
  · rw [h.methods_eq hc, List.filter_map]
    congr 1
    apply List.filter_congr
    intro m hm
    have hlt := ((hg.mem_methods _ _).1 hm).1
    show isWritten g' (o.classes + c) (o.methods + m) = isWritten g c m
    unfold isWritten
    rw [h.isSource hg hg' hkeys hkeys' hc hlt, h.method m hlt]
    rfl
  · rfl

theorem memberSymbols_moved (h : Graph.Part o g g') (hc : c < g.classCount) :
    memberSymbols settings g' (o.classes + c) = (memberSymbols settings g c).map (·.moved o) := by
  have hfields : ∀ f ∈ writtenFields settings c g,
      fieldSymbols g' (o.fields + f) = (fieldSymbols g f).map (·.moved o) :=
    fun f hf => fieldSymbols_moved h ((mem_writtenFields hg).1 hf).2.1
  have hmethods : ∀ m ∈ writtenMethods settings c g,
      methodSymbols g' (o.methods + m) = (methodSymbols g m).map (·.moved o) :=
    fun m hm => methodSymbols_moved h ((mem_writtenMethods hg).1 hm).2.1
  unfold memberSymbols
  rw [included_moved h hc, writtenFields_moved h hc,
    writtenMethods_moved hg hg' hkeys hkeys' h hc, List.flatMap_map, List.flatMap_map,
    List.flatMap_congr hfields, List.flatMap_congr hmethods]
  split
  · rw [List.map_append, List.map_flatMap, List.map_flatMap]
  · rfl

/-- Over the classes of a part the walk is that of the part. -/
theorem walk_moved (h : Graph.Part o g g') :
    (g.classIds.map (o.classes + ·)).flatMap
        (fun c => classSymbols settings g' c ++ memberSymbols settings g' c) =
      (walk settings g).map (·.moved o) := by
  unfold walk
  rw [List.flatMap_map, List.map_flatMap]
  apply List.flatMap_congr
  intro c hc
  have hlt := Graph.mem_classIds.1 hc
  rw [classSymbols_moved h hlt, memberSymbols_moved hg hg' hkeys hkeys' h hlt, List.map_append]

end Coherent

section Joined

variable {whole : Graph} (h : Graph.Joined g g' whole)

include h

theorem classIds_joined :
    whole.classIds = g.classIds.map (0 + ·) ++ g'.classIds.map (g.classCount + ·) := by
  unfold Graph.classIds
  rw [h.classCount_eq, List.range_add]
  simp

theorem walk_joined : walk settings whole = (walk settings g).map (·.moved ⟨0, 0, 0⟩) ++
    (walk settings g').map (·.moved ⟨g.classCount, g.fields.size, g.methodCount⟩) := by
  rw [← walk_moved h.coherent h.coherent_whole h.keys h.keys_whole h.part,
    ← walk_moved h.coherent' h.coherent_whole h.keys' h.keys_whole h.part',
    ← List.flatMap_append, ← classIds_joined h]
  rfl

/-- The symbols that get numbers are those that get them in the runs over each document. -/
theorem leaders_joined : whole.leaders (walk settings whole) =
    (g.leaders (walk settings g)).map (·.moved ⟨0, 0, 0⟩) ++
      (g'.leaders (walk settings g')).map
        (·.moved ⟨g.classCount, g.fields.size, g.methodCount⟩) := by
  have hfirst : whole.leaders ((walk settings g).map (·.moved ⟨0, 0, 0⟩)) =
      (g.leaders (walk settings g)).map (·.moved ⟨0, 0, 0⟩) := by
    have hhas : ∀ s ∈ walk settings g, g.Has s := fun s hs => has_of_mem_walk h.coherent hs
    have hnone : ∀ t ∈ whole.leaders [], ∀ u : Symbol, t ≠ u.moved ⟨0, 0, 0⟩ := by
      simp [Graph.leaders]
    have happend := h.part.leaders_append h.coherent h.coherent_whole h.keys h.keys_whole hhas hnone
    exact happend
  rw [walk_joined h, h.part'.leaders_append h.coherent' h.coherent_whole h.keys' h.keys_whole
    (fun s hs => has_of_mem_walk h.coherent' hs) ?_, hfirst]
  intro t ht u
  rw [hfirst] at ht
  obtain ⟨s, hs, rfl⟩ := List.mem_map.1 ht
  exact Symbol.moved_ne_moved
    (has_of_mem_walk h.coherent (Graph.mem_of_mem_leaders hs)) u

end Joined

end Walk

/-! ## First runs -/

/-- The state at the end of a run without earlier names, and the new names of the classes. -/
structure FirstRun (settings : Settings) (l : Lineage) (first : Allocator) (n : Naming)
    (classes : List String) : Prop where
  coherent : l.graph.Coherent
  keys : l.graph.KeysDistinct
  chain : l.chain = {}
  numbers : first.numbers = ∅
  walked : Walked l.graph first (walk settings l.graph) n
  outcome : l.Outcome settings n classes

section Runs

variable {μ : Type} {settings : Settings} {l l' : Lineage} {first first' : Allocator}
  {n n' : Naming} {classes classes' : List String} {o : Offset}

/-- A run without earlier names gives the records of its roster and asks nothing. -/
theorem exists_firstRun (hg : l.graph.Coherent) (hkeys : l.graph.KeysDistinct)
    (hchain : l.chain = {}) (settings : Settings) (counters : List (Category × Nat))
    (policy : Policy μ) (memory : μ) :
    ∃ n classes, (applyCounters { settings, lineage := l } counters).generate policy memory =
        (.ok (result n ((l.roster n classes).recordsOn settings l.graph
          (included settings l.graph))), { settings, lineage := l, naming := n }, memory) ∧
      FirstRun settings l ⟨Counters.setAll {} counters, ∅⟩ n classes := by
  obtain ⟨out, s', hrun⟩ := exists_generated settings hchain counters policy memory
  have hcandidates : l.CleanCandidates := by
    intro m _ candidate hc
    rw [Lineage.candidates_of_empty_chain hchain] at hc
    cases hc
  obtain ⟨classes, houtcome, _, _, rfl⟩ := exists_outcome_of_candidates hg hcandidates hrun
  obtain ⟨rs, hx, _⟩ := generate_eq_ok hrun
  set start := applyCounters { settings, lineage := l } counters
  have hwalk : Walks l start.naming.allocator (walk settings l.graph)
      (allRecords settings l policy) := walks_allRecords hg hkeys hchain rfl
  obtain ⟨_, n, hx', hw⟩ := hwalk [] start.naming memory (.start rfl)
  cases hx.symm.trans hx'
  obtain ⟨hsettings, hlineage⟩ := generate_keeps start policy memory
  rw [hrun] at hsettings hlineage
  obtain ⟨_, _, _⟩ := s'
  cases hsettings
  cases hlineage
  exact ⟨_, classes, hrun, hg, hkeys, hchain, rfl, hw, houtcome⟩

namespace FirstRun

/-- As many symbols have numbers as come first of their kind. -/
theorem allocated_eq (r : FirstRun settings l first n classes) :
    n.allocator.allocated = (l.graph.leaders (walk settings l.graph)).length := by
  rw [r.walked.allocator]
  exact Allocator.allocated_handOut r.numbers r.walked.nodup

/-- What first comes of its kind has a number. -/
theorem exists_number (r : FirstRun settings l first n classes) {s : Symbol}
    (hs : s ∈ l.graph.leaders (walk settings l.graph)) :
    ∃ k, n.allocator.numbers.get? s = some (s.category, k) := r.walked.exists_number r.numbers hs

/-- The symbols that get numbers in the part get the same in the whole graph. -/
def Echoed (settings : Settings) (o : Offset) (l l' : Lineage) (n n' : Naming) : Prop :=
  ∀ s ∈ l.graph.leaders (walk settings l.graph),
    s.moved o ∈ l'.graph.leaders (walk settings l'.graph) ∧
      n'.issued (s.moved o) = n.issued s

/-- If the whole run comes to the part with the counters that the part starts with, then it hands
out the numbers of the part. -/
theorem echoed (r : FirstRun settings l first n classes)
    (r' : FirstRun settings l' first' n' classes') (before after : List Symbol)
    (hleaders : l'.graph.leaders (walk settings l'.graph) =
      before ++ (l.graph.leaders (walk settings l.graph)).map (·.moved o) ++ after)
    (hnext : ∀ category, first.next category = (first'.handOut before).next category) :
    Echoed settings o l l' n n' := by
  intro s hs
  have hnodup := r'.walked.nodup
  rw [hleaders] at hnodup ⊢
  refine ⟨List.mem_append_left _ (List.mem_append_right _ (List.mem_map_of_mem hs)), ?_⟩
  obtain ⟨k, hk⟩ := r.exists_number hs
  have hk' : n'.allocator.numbers.get? (s.moved o) = some (s.category, k) := by
    rw [r.walked.allocator] at hk
    rw [r'.walked.allocator, hleaders]
    exact Allocator.get?_handOut_moved r.numbers r'.numbers r.walked.nodup hnodup hnext hk
  rw [issued_eq hk, issued_eq hk']

variable (r : FirstRun settings l first n classes) (r' : FirstRun settings l' first' n' classes')
  (hpart : Graph.Part o l.graph l'.graph) (hechoed : Echoed settings o l l' n n')

include r r' hpart hechoed

theorem target_moved {c : ClassId} (hc : c < l.graph.classCount) :
    classes'.getD (o.classes + c) "" = classes.getD c "" := by
  have hunknown : ∀ {l : Lineage}, l.chain = {} → ∀ name, l.chain.lookupClass name = none := by
    intro l h name
    rw [h]
    rfl
  induction c using Nat.strong_induction_on with
  | _ c ih =>
    have htarget := r.outcome.target c hc
    have htarget' := r'.outcome.target (o.classes + c) (hpart.class_lt c hc)
    rcases hkeep : keepsName settings (l.graph.classInfo c) with _ | _
    · have hkeep' := (keepsName_moved settings hpart hc).trans hkeep
      obtain ⟨k, hk, hfull⟩ := htarget.fresh hkeep (hunknown r.chain _)
      obtain ⟨k', hk', hfull'⟩ := htarget'.fresh hkeep' (hunknown r'.chain _)
      have haround : surroundings settings l'.graph classes' (o.classes + c) =
          surroundings settings l.graph classes c := by
        unfold surroundings
        rw [hpart.outer_eq hc]
        rcases houter : (l.graph.classInfo c).outer? with _ | outer
        · rfl
        · -- the class around stands before this one, so its name is the same
          have hlt := r.coherent.outer_lt c outer houter
          exact congrArg (· ++ "$") (ih outer hlt (hlt.trans hc))
      have hleader := mem_leaders_of_mem_numbered (mem_numbered_self r.coherent r.keys
        (mem_walk_ofClass.2 ⟨hc, hkeep⟩) (by simp))
      have hissued := (hechoed _ hleader).2
      rw [issued_eq hk, show (Symbol.ofClass c).moved o = .ofClass (o.classes + c) from rfl,
        issued_eq hk'] at hissued
      rw [hfull, hfull', haround, hpart.className_eq hc, hissued]
    · have hkeep' := (keepsName_moved settings hpart hc).trans hkeep
      rw [htarget.kept hkeep, htarget'.kept hkeep', hpart.className_eq hc]

omit hpart in
theorem field_moved {f : FieldId} (hf : .ofField f ∈ walk settings l.graph) :
    (l'.roster n' classes').field (o.fields + f) = (l.roster n classes).field f := by
  have hleader := mem_leaders_of_mem_numbered
    (mem_numbered_self r.coherent r.keys hf (by simp))
  rw [roster_field r.chain, roster_field r'.chain]
  exact (hechoed _ hleader).2

theorem method_moved {m : MethodId} (hm : .ofMethod m ∈ walk settings l.graph) :
    (l'.roster n' classes').method (o.methods + m) = (l.roster n classes).method m := by
  obtain ⟨hlt, p, hp, hnumbered, hnamed⟩ := exists_mem_numbered r.coherent r.keys r.walked hm
  obtain ⟨hleader, hissued⟩ := hechoed _ (mem_leaders_of_mem_numbered hnumbered)
  have hplt := r.walked.lt p (mem_leaders_of_mem_numbered hnumbered)
  have hmp := mem_familyOf_symm r.coherent r.keys hlt hp
  have hmp' : o.methods + m ∈ familyOf l'.graph (o.methods + p) :=
    (hpart.mem_family r.coherent r'.coherent r.keys r'.keys hplt).2 ⟨m, hmp, rfl⟩
  rw [roster_method hnamed (Graph.self_mem_family r.coherent r.keys hlt), ← hissued]
  exact roster_method (r'.walked.named _ hleader) hmp'

/-- A class of the part has the records that it has in the run over the part alone. -/
theorem classRecords_moved {c : ClassId} (hc : c < l.graph.classCount)
    (hi : included settings l.graph c = true) :
    (l'.roster n' classes').classRecords settings l'.graph (o.classes + c) =
      (l.roster n classes).classRecords settings l.graph c := by
  unfold Roster.classRecords
  rw [writtenFields_moved hpart hc,
    writtenMethods_moved r.coherent r'.coherent r.keys r'.keys hpart hc, List.map_map,
    List.map_map]
  refine congrArg₂ (· ++ ·) (congrArg₂ List.cons ?target ?fields) ?methods
  case target =>
    rw [hpart.className_eq hc]
    exact congrArg _ (r.target_moved r' hpart hechoed hc)
  case fields =>
    apply List.map_congr_left
    intro f hf
    have hlt := ((mem_writtenFields r.coherent).1 hf).2.1
    simp only [Function.comp_apply, Roster.fieldRecord, Roster.fieldName, hpart.field f hlt,
      hpart.className_eq hc, FieldInfo.moved]
    rcases hscrambled : isScrambledField (l.graph.field f).name with _ | _
    · rfl
    · have hwalk : .ofField f ∈ walk settings l.graph :=
        mem_walk_ofField.2 ⟨c, hc, hi, hf, hscrambled⟩
      rw [if_pos rfl, if_pos rfl, r.field_moved r' hechoed hwalk]
  case methods =>
    apply List.map_congr_left
    intro m hm
    have hlt := ((mem_writtenMethods r.coherent).1 hm).2.1
    simp only [Function.comp_apply, Roster.methodRecord, Roster.methodName, hpart.method m hlt,
      hpart.className_eq hc, MethodInfo.moved]
    rcases hscrambled : isScrambledMethod (l.graph.method m).name with _ | _
    · rfl
    · have hwalk : .ofMethod m ∈ walk settings l.graph :=
        mem_walk_ofMethod.2 ⟨c, hc, hi, hm, hscrambled⟩
      rw [if_pos rfl, if_pos rfl, r.method_moved r' hpart hechoed hwalk]

/-- The records of the classes of a part are those of the run over the part alone. -/
theorem records_moved :
    ((l.graph.classIds.map (o.classes + ·)).filter (included settings l'.graph)).flatMap
        ((l'.roster n' classes').classRecords settings l'.graph) =
      (l.roster n classes).recordsOn settings l.graph (included settings l.graph) := by
  unfold Roster.recordsOn
  rw [List.filter_map, List.flatMap_map]
  have hincluded : l.graph.classIds.filter (included settings l'.graph ∘ (o.classes + ·)) =
      l.graph.classIds.filter (included settings l.graph) :=
    List.filter_congr fun c hc => included_moved hpart (Graph.mem_classIds.1 hc)
  rw [hincluded]
  apply List.flatMap_congr
  intro c hc
  obtain ⟨hc, hi⟩ := List.mem_filter.1 hc
  exact r.classRecords_moved r' hpart hechoed (Graph.mem_classIds.1 hc) hi

end FirstRun

end Runs

/-! ## Runs over independent documents -/

section Joined

variable {settings : Settings} {g g' whole : Graph} {first : Allocator} {n n' N : Naming}
  {classes classes' targets : List String}

/-- The records of the joined run are those of the runs over each document, the counters are those
of the second run, and as many symbols have numbers as in both runs together. -/
theorem joined_run (h : Graph.Joined g g' whole)
    (r : FirstRun settings { graph := g } first n classes)
    (r' : FirstRun settings { graph := g' } ⟨n.allocator.counters, ∅⟩ n' classes')
    (w : FirstRun settings { graph := whole } first N targets) :
    (Lineage.roster { graph := whole } N targets).recordsOn settings whole
        (included settings whole) =
      (Lineage.roster { graph := g } n classes).recordsOn settings g (included settings g) ++
        (Lineage.roster { graph := g' } n' classes').recordsOn settings g'
          (included settings g') ∧
      N.allocator.counters = n'.allocator.counters ∧
      N.allocator.allocated = n.allocator.allocated + n'.allocator.allocated := by
  have hleaders := @leaders_joined settings g g' whole h
  -- where the second part starts, the counters are those that the first run ends with
  have hmiddle : (first.handOut ((g.leaders (walk settings g)).map
      (·.moved ⟨0, 0, 0⟩))).counters = n.allocator.counters := by
    rw [r.walked.allocator]
    exact Allocator.counters_handOut_moved rfl _
  have hechoed : FirstRun.Echoed settings ⟨0, 0, 0⟩ { graph := g } { graph := whole } n N :=
    r.echoed w [] _ hleaders fun _ => rfl
  have hechoed' : FirstRun.Echoed settings ⟨g.classCount, g.fields.size, g.methodCount⟩
      { graph := g' } { graph := whole } n' N := by
    refine r'.echoed w _ [] (hleaders.trans (List.append_nil _).symm) ?_
    intro category
    unfold Allocator.next
    rw [hmiddle]
  refine ⟨?records, ?counters, ?allocated⟩
  case records =>
    unfold Roster.recordsOn
    rw [classIds_joined h, List.filter_append, List.flatMap_append]
    exact congrArg₂ (· ++ ·) (r.records_moved w h.part hechoed)
      (r'.records_moved w h.part' hechoed')
  case counters =>
    rw [w.walked.allocator, r'.walked.allocator, hleaders, Allocator.handOut_append]
    exact Allocator.counters_handOut_moved (a := ⟨n.allocator.counters, ∅⟩) hmiddle _
  case allocated =>
    rw [w.allocated_eq, r.allocated_eq, r'.allocated_eq, hleaders, List.length_append,
      List.length_map, List.length_map]

end Joined

/-- Independent documents are named independently. A run over both of them one after the other
gives the records of a run over the first one, and then the records of a run over the second one
that starts with the counters of the first. It ends with the counters of that run, and its fresh
names are those of both. -/
theorem independent_documents_are_named_independently {doc next : Document}
    (h : doc.Independent next) (source : String) (settings : Settings)
    (counters : List (Category × Nat)) {μ : Type} (policy : Policy μ) (memory : μ) :
    ∃ g g' whole, Graph.ofDocument source doc = .ok g ∧ Graph.ofDocument source next = .ok g' ∧
      Graph.ofDocument source (doc.followedBy next) = .ok whole ∧
      ∃ out out' joint s s' t rs rs',
        ((start settings g).applyCounters counters).generate policy memory =
          (.ok out, s, memory) ∧
        ((start settings g').applyCounters out.counters.toList).generate policy memory =
          (.ok out', s', memory) ∧
        ((start settings whole).applyCounters counters).generate policy memory =
          (.ok joint, t, memory) ∧
        out.text = textOf rs out.counters ∧ out'.text = textOf rs' out'.counters ∧
        joint.text = textOf (rs ++ rs') joint.counters ∧
        joint.counters = out'.counters ∧
        joint.freshNames = out.freshNames + out'.freshNames := by
  obtain ⟨g, g', whole, hload, hload', hwhole, hjoined⟩ := Graph.exists_joined h source
  obtain ⟨n, classes, hrun, r⟩ := exists_firstRun (l := { graph := g }) hjoined.coherent
    hjoined.keys rfl settings counters policy memory
  obtain ⟨n', classes', hrun', r'⟩ := exists_firstRun (l := { graph := g' }) hjoined.coherent'
    hjoined.keys' rfl settings n.allocator.counters.toList policy memory
  obtain ⟨N, targets, hjoint, w⟩ := exists_firstRun (l := { graph := whole })
    hjoined.coherent_whole hjoined.keys_whole rfl settings counters policy memory
  rw [setAll_toList] at r'
  obtain ⟨hrecords, hcounters, hallocated⟩ := joined_run hjoined r r' w
  refine ⟨g, g', whole, hload, hload', hwhole, _, _, _, _, _, _, _, _, hrun, hrun', hjoint, rfl,
    rfl, ?_, hcounters, hallocated⟩
  rw [← hrecords]
  rfl

/-- A class with a method. -/
def loneClass : Document where
  classes := [{ name := "a", methods := [{ name := "x", desc := "()V" }] }]

/-- Another class with such a method, and one that overrides it. -/
def overridingClasses : Document where
  classes := [{ name := "b", methods := [{ name := "x", desc := "()V" }] },
    { name := "c", superName? := some "b", methods := [{ name := "x", desc := "()V" }] }]

/-- The graphs of both. -/
def loneGraph : Graph := (Graph.ofDocument "" loneClass).toOption.getD {}

def overridingGraph : Graph := (Graph.ofDocument "" overridingClasses).toOption.getD {}

/-- The methods of the second document get a name of their own, though the method of the first
document has the same key. -/
theorem independent_documents_are_named_independently_overriding :
    loneClass.Independent overridingClasses ∧ ∃ whole joint t,
      Graph.ofDocument "" (loneClass.followedBy overridingClasses) = .ok whole ∧
      ((start allScrambled whole).applyCounters []).generate Policy.fail () =
        (.ok joint, t, ()) ∧ joint.freshNames = 2 + 3 := by
  have h : loneClass.Independent overridingClasses := by decide
  obtain ⟨g, g', whole, hload, hload', hwhole, out, out', joint, _, _, t, _, _, hrun, hrun',
    hjoint, _, _, _, _, hfresh⟩ :=
    independent_documents_are_named_independently h "" allScrambled [] Policy.fail ()
  cases hload.symm.trans (show _ = .ok loneGraph from rfl)
  cases hload'.symm.trans (show _ = .ok overridingGraph from rfl)
  obtain ⟨_, _, hrun₁, r⟩ := exists_firstRun (l := { graph := loneGraph })
    (Graph.coherent_of_ofDocument hload) (Graph.keysDistinct_of_ofDocument hload h.keys) rfl
    allScrambled [] Policy.fail ()
  obtain ⟨_, _, hrun₂, r'⟩ := exists_firstRun (l := { graph := overridingGraph })
    (Graph.coherent_of_ofDocument hload') (Graph.keysDistinct_of_ofDocument hload' h.keys') rfl
    allScrambled out.counters.toList Policy.fail ()
  cases hrun.symm.trans hrun₁
  cases hrun'.symm.trans hrun₂
  have hfirst : (loneGraph.leaders (walk allScrambled loneGraph)).length = 2 := by cbv
  have hsecond : (overridingGraph.leaders (walk allScrambled overridingGraph)).length = 3 := by
    cbv
  refine ⟨h, whole, joint, t, hwhole, hjoint, hfresh.trans ?_⟩
  exact congrArg₂ (· + ·) (r.allocated_eq.trans hfirst) (r'.allocated_eq.trans hsecond)

end Session

end StableNames
