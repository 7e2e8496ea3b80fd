-- The numbers of a first run. A run without earlier names walks over the
-- classes and hands out numbers on its way: to a renamed class when it
-- comes to it, to a renamed field at its record, and to a family at the
-- first of its renamed methods that is written. So two methods have the
-- same name if and only if they are of one family, and the numbers of a
-- category have no gaps.
import Mathlib
import StableNames.Proofs.Naming.Alike
import StableNames.Proofs.Naming.HandedOut
import StableNames.Proofs.Session.Records

namespace StableNames

open Naming

namespace Session

/-! ## The walk -/

section Walk

variable (settings : Settings) (g : Graph)

/-- The class, if it is renamed. -/
def classSymbols (c : ClassId) : List Symbol :=
  if keepsName settings (g.classInfo c) then [] else [.ofClass c]

/-- The field, if it is renamed. -/
def fieldSymbols (f : FieldId) : List Symbol :=
  if isScrambledField (g.field f).name then [.ofField f] else []

/-- The method, if it is renamed. -/
def methodSymbols (m : MethodId) : List Symbol :=
  if isScrambledMethod (g.method m).name then [.ofMethod m] else []

/-- The renamed members of a class that are written, fields first. -/
def memberSymbols (c : ClassId) : List Symbol :=
  if included settings g c then
    (writtenFields settings c g).flatMap (fieldSymbols g) ++
      (writtenMethods settings c g).flatMap (methodSymbols g)
  else []

/-- Classes are walked in the order of the document, each before the classes inside it. -/
theorem map_className_classIds {source : String} {doc : Document}
    (hload : Graph.ofDocument source doc = .ok g) :
    g.classIds.map g.className = doc.outline.map (·.2.name) := by
  have hnames := congrArg (fun cs => cs.toList.map ClassInfo.name)
    (Graph.built_of_ofDocument hload).classes
  simp only [numberClasses_map_name] at hnames
  rw [← hnames]
  apply List.ext_getElem
  · simp [Graph.classIds, Graph.classCount]
  · intro c hc hc'
    have hlt : c < g.classes.size := by
      simpa [Graph.classIds, Graph.classCount] using hc
    simp [Graph.classIds, Graph.className, Graph.classInfo, hlt]

/-- All symbols that a run has to name, in the order in which it comes to them. -/
def walk : List Symbol :=
  g.classIds.flatMap fun c => classSymbols settings g c ++ memberSymbols settings g c

/-- The symbols of a category that get numbers, in order: each is the first of those that
share its name. -/
def numbered (category : Category) : List Symbol :=
  Allocator.inCategory category (g.leaders (walk settings g))

end Walk

/-! ## Steps of the walk -/

section Steps

variable {μ α β : Type} {settings : Settings} {l : Lineage} {policy : Policy μ}
  {first : Allocator} {c : ClassId} {m : MethodId}

/-- From each state of the walk the step names these symbols, gives a result and asks nothing. -/
def Walks (l : Lineage) (first : Allocator) (symbols : List Symbol) (x : Step (Naming × μ) α) :
    Prop :=
  ∀ seen n memory, Walked l.graph first seen n → ∃ a n', x.exec (n, memory) = (.ok a, n', memory) ∧
    Walked l.graph first (seen ++ symbols) n'

namespace Walks

theorem pure (a : α) : Walks l first [] (pure a : Step (Naming × μ) α) := by
  intro seen n memory hw
  rw [List.append_nil]
  exact ⟨a, n, rfl, hw⟩

theorem bind {symbols symbols' : List Symbol} {x : Step (Naming × μ) α}
    {f : α → Step (Naming × μ) β} (hx : Walks l first symbols x)
    (hf : ∀ a, Walks l first symbols' (f a)) : Walks l first (symbols ++ symbols') (x >>= f) := by
  intro seen n memory hw
  obtain ⟨a, n₁, hx, hw₁⟩ := hx seen n memory hw
  obtain ⟨b, n₂, hf, hw₂⟩ := hf a (seen ++ symbols) n₁ memory hw₁
  rw [List.append_assoc] at hw₂
  exact ⟨b, n₂, Step.exec_bind_eq_ok.2 ⟨a, _, hx, hf⟩, hw₂⟩

/-- What comes after a step that names nothing more. -/
theorem andThen {symbols : List Symbol} {x : Step (Naming × μ) α} {f : α → Step (Naming × μ) β}
    (hx : Walks l first symbols x) (hf : ∀ a, Walks l first [] (f a)) :
    Walks l first symbols (x >>= f) := by
  rw [← List.append_nil symbols]
  exact hx.bind hf

theorem mapM {ι : Type} {symbols : ι → List Symbol} {f : ι → Step (Naming × μ) α} {is : List ι}
    (h : ∀ i ∈ is, Walks l first (symbols i) (f i)) :
    Walks l first (is.flatMap symbols) (is.mapM f) := by
  induction is with
  | nil => exact .pure []
  | cons i is ih =>
    rw [List.mapM_cons, List.flatMap_cons]
    have htail := ih fun j hj => h j (List.mem_cons_of_mem _ hj)
    exact (h i List.mem_cons_self).bind fun a => htail.andThen fun as => .pure (a :: as)

/-- A change that names nothing. -/
theorem modify {f : Naming → Naming} (hallocator : ∀ n, (f n).allocator = n.allocator)
    (hresolved : ∀ n, (f n).resolved = n.resolved) :
    Walks l first [] ((modify f : Step Naming Unit).onFirst : Step (Naming × μ) Unit) := by
  intro seen n memory hw
  rw [List.append_nil]
  exact ⟨(), f n, rfl, hw.congr (hallocator n) (hresolved n)⟩

end Walks

theorem walks_count (f : Tally → Tally) :
    Walks l first [] ((count f).onFirst : Step (Naming × μ) Unit) :=
  .modify (fun _ => rfl) fun _ => rfl

theorem walks_allocate (hnone : first.numbers = ∅) {s : Symbol} (hs : ∀ m, s ≠ .ofMethod m) :
    Walks l first [s] ((allocate s s.category).onFirst : Step (Naming × μ) String) := by
  intro seen n memory hw
  obtain ⟨name, n', hx, hw'⟩ := hw.exec_allocate hnone hs
  exact ⟨name, n', by rw [Step.exec_onFirst, hx], hw'⟩

variable (hg : l.graph.Coherent) (hkeys : l.graph.KeysDistinct) (hchain : l.chain = {})
  (hnone : first.numbers = ∅)

include hchain hnone

theorem walks_classTarget (around : String) :
    Walks l first (classSymbols settings l.graph c)
      ((classTarget settings l c around).onFirst : Step (Naming × μ) Target) := by
  unfold classTarget classSymbols
  rcases hkeep : keepsName settings (l.graph.classInfo c) with _ | _
  · have hunknown : l.chain.lookupClass (l.graph.classInfo c).name = none := by
      rw [hchain]
      rfl
    simp only [hkeep, Bool.false_eq_true, if_false, hunknown, Step.onFirst_bind]
    have hs : ∀ m, Symbol.ofClass c ≠ .ofMethod m := by simp
    exact (walks_allocate hnone hs).andThen fun _ => .pure _
  · simp only [hkeep, if_true]
    exact .pure _

theorem walks_fieldRecord (owner : String) (f : FieldId) :
    Walks l first (fieldSymbols l.graph f)
      ((fieldRecord l owner f).onFirst : Step (Naming × μ) Record) := by
  have hname : Walks l first (fieldSymbols l.graph f)
      ((newFieldName l f).onFirst : Step (Naming × μ) String) := by
    unfold newFieldName fieldSymbols
    rcases hs : isScrambledField (l.graph.field f).name with _ | _
    · exact .pure _
    · simp only [if_true]
      unfold fieldName
      rw [hchain]
      have hs : ∀ m, Symbol.ofField f ≠ .ofMethod m := by simp
      exact walks_allocate hnone hs
  rw [fieldRecord_eq]
  simp only [Step.onFirst_bind]
  exact hname.andThen fun _ => (walks_count _).andThen fun _ => .pure _

include hg hkeys

theorem walks_methodRecord (hm : m < l.graph.methodCount) :
    Walks l first (methodSymbols l.graph m)
      (methodRecord l policy (l.graph.method m).owner m) := by
  have hname : Walks l first (methodSymbols l.graph m)
      (newMethodName l policy (l.graph.method m).owner m) := by
    unfold newMethodName methodSymbols
    rcases hs : isScrambledMethod (l.graph.method m).name with _ | _
    · exact .pure _
    · intro seen n memory hw
      exact hw.exec_resolve hnone hg hkeys hchain hm policy memory
  rw [methodRecord_eq]
  exact hname.andThen fun _ => (walks_count _).andThen fun _ => .pure _

theorem walks_classRecords (target : String) :
    Walks l first (memberSymbols settings l.graph c)
      (classRecords settings l policy c target) := by
  unfold memberSymbols
  rcases hincluded : included settings l.graph c with _ | _
  · rw [classRecords_of_not_included _ _ _ _ _ hincluded]
    exact .pure _
  · have hmethods : ∀ m ∈ writtenMethods settings c l.graph,
        Walks l first (methodSymbols l.graph m) (methodRecord l policy c m) := by
      intro m hm
      obtain ⟨_, hlt, rfl, _⟩ := (mem_writtenMethods hg).1 hm
      exact walks_methodRecord hg hkeys hchain hnone hlt
    rw [classRecords_eq _ _ _ _ _ hincluded, if_pos rfl, ← List.nil_append (_ ++ _)]
    refine (walks_count _).bind fun _ => ?_
    refine Walks.bind (.mapM fun f _ => walks_fieldRecord hchain hnone _ f) fun fields => ?_
    exact (Walks.mapM hmethods).andThen fun _ => .pure _

theorem walks_records (targets : List String) (classes : List ClassId) :
    Walks l first
      (classes.flatMap fun c => classSymbols settings l.graph c ++ memberSymbols settings l.graph c)
      (records settings l policy targets classes) := by
  induction classes generalizing targets with
  | nil => exact .pure _
  | cons c rest ih =>
    rw [List.flatMap_cons, List.append_assoc]
    unfold records
    refine (walks_classTarget hchain hnone _).bind fun target => ?_
    refine (walks_classRecords hg hkeys hchain hnone _).bind fun here => ?_
    exact (ih _).andThen fun _ => .pure _

theorem walks_allRecords :
    Walks l first (walk settings l.graph) (allRecords settings l policy) := by
  unfold allRecords walk
  simp only
  split
  · rw [← List.nil_append (List.flatMap _ _)]
    refine Walks.bind (.modify (fun _ => rfl) fun _ => rfl) fun _ => ?_
    exact walks_records hg hkeys hchain hnone _ _
  · exact walks_records hg hkeys hchain hnone _ _

end Steps

/-! ## What the walk comes to -/

variable {settings : Settings} {g : Graph} {s : Symbol} {c : ClassId} {f : FieldId} {m : MethodId}

theorem mem_classSymbols :
    s ∈ classSymbols settings g c ↔
      keepsName settings (g.classInfo c) = false ∧ s = .ofClass c := by
  unfold classSymbols
  split <;> simp_all

theorem mem_memberSymbols :
    s ∈ memberSymbols settings g c ↔ included settings g c = true ∧
      ((∃ f ∈ writtenFields settings c g,
          isScrambledField (g.field f).name = true ∧ s = .ofField f) ∨
        ∃ m ∈ writtenMethods settings c g,
          isScrambledMethod (g.method m).name = true ∧ s = .ofMethod m) := by
  have hfield : ∀ f, s ∈ fieldSymbols g f ↔
      isScrambledField (g.field f).name = true ∧ s = .ofField f := by
    intro f
    unfold fieldSymbols
    split <;> simp_all
  have hmethod : ∀ m, s ∈ methodSymbols g m ↔
      isScrambledMethod (g.method m).name = true ∧ s = .ofMethod m := by
    intro m
    unfold methodSymbols
    split <;> simp_all
  unfold memberSymbols
  split
  · rename_i h
    simp only [List.mem_append, List.mem_flatMap, hfield, hmethod, h, true_and]
  · rename_i h
    simp [h]

theorem mem_walk :
    s ∈ walk settings g ↔ ∃ c < g.classCount,
      s ∈ classSymbols settings g c ∨ s ∈ memberSymbols settings g c := by
  unfold walk Graph.classIds
  simp only [List.mem_flatMap, List.mem_append, List.mem_range]

theorem mem_walk_ofClass :
    .ofClass c ∈ walk settings g ↔
      c < g.classCount ∧ keepsName settings (g.classInfo c) = false := by
  simp only [mem_walk, mem_classSymbols, mem_memberSymbols, Symbol.ofClass.injEq, reduceCtorEq,
    and_false, exists_false, or_false]
  constructor
  · rintro ⟨d, hd, hkeep, rfl⟩
    exact ⟨hd, hkeep⟩
  · rintro ⟨hc, hkeep⟩
    exact ⟨c, hc, hkeep, rfl⟩

theorem mem_walk_ofField {f : FieldId} :
    .ofField f ∈ walk settings g ↔ ∃ c < g.classCount, included settings g c = true ∧
      f ∈ writtenFields settings c g ∧ isScrambledField (g.field f).name = true := by
  simp only [mem_walk, mem_classSymbols, mem_memberSymbols, Symbol.ofField.injEq, reduceCtorEq,
    and_false, exists_false, or_false, false_or]
  constructor
  · rintro ⟨c, hc, hincluded, f', hf, hs, rfl⟩
    exact ⟨c, hc, hincluded, hf, hs⟩
  · rintro ⟨c, hc, hincluded, hf, hs⟩
    exact ⟨c, hc, hincluded, f, hf, hs, rfl⟩

theorem mem_walk_ofMethod :
    .ofMethod m ∈ walk settings g ↔ ∃ c < g.classCount, included settings g c = true ∧
      m ∈ writtenMethods settings c g ∧ isScrambledMethod (g.method m).name = true := by
  simp only [mem_walk, mem_classSymbols, mem_memberSymbols, Symbol.ofMethod.injEq, reduceCtorEq,
    and_false, exists_false, false_or]
  constructor
  · rintro ⟨c, hc, hincluded, m', hm, hs, rfl⟩
    exact ⟨c, hc, hincluded, hm, hs⟩
  · rintro ⟨c, hc, hincluded, hm, hs⟩
    exact ⟨c, hc, hincluded, m, hm, hs, rfl⟩

/-- The names of a first run over a graph, from the counters `first` on. -/
structure FirstNames (settings : Settings) (g : Graph) (first : Counters) (n : Naming)
    (R : Roster) : Prop where
  next : ∀ category, n.allocator.counters.next category =
    first.next category + (numbered settings g category).length
  numbers : ∀ s category k, n.allocator.numbers.get? s = some (category, k) ↔
    ∃ i, (numbered settings g category)[i]? = some s ∧ k = first.next category + i
  kept : ∀ c < g.classCount, keepsName settings (g.classInfo c) = true →
    R.target c = g.className c
  target : ∀ c < g.classCount, keepsName settings (g.classInfo c) = false →
    .ofClass c ∈ numbered settings g .ofClass ∧
      R.target c = placeOf settings (g.className c) (surroundings settings g R.classes c) ++
        n.issued (.ofClass c)
  field : ∀ f, .ofField f ∈ walk settings g →
    .ofField f ∈ numbered settings g .ofField ∧ R.field f = n.issued (.ofField f)
  method : ∀ m, .ofMethod m ∈ walk settings g →
    ∃ p ∈ familyOf g m, .ofMethod p ∈ numbered settings g .ofMethod ∧
      R.method m = n.issued (.ofMethod p)
  classes_apart : ∀ c c', .ofClass c ∈ walk settings g → .ofClass c' ∈ walk settings g →
    n.issued (.ofClass c) = n.issued (.ofClass c') → c = c'
  fields_apart : ∀ f f', .ofField f ∈ walk settings g → .ofField f' ∈ walk settings g →
    R.field f = R.field f' → f = f'
  methods_apart : ∀ m m', .ofMethod m ∈ walk settings g → .ofMethod m' ∈ walk settings g →
    (R.method m = R.method m' ↔ m' ∈ familyOf g m)

section Names

variable {l : Lineage} {first : Allocator} {n : Naming} {classes : List String}

/-- What has a number is the first in the walk of those that share it. -/
theorem mem_leaders_of_mem_numbered {category : Category}
    (h : s ∈ numbered settings l.graph category) : s ∈ l.graph.leaders (walk settings l.graph) :=
  (Allocator.mem_inCategory.1 h).1

/-- Without earlier names, a renamed field is named after its number. -/
theorem roster_field (hchain : l.chain = {}) (f : FieldId) :
    (l.roster n classes).field f = n.issued (.ofField f) := by
  unfold Lineage.roster Lineage.fieldNameIn nameIn Lineage.knownField?
  rw [hchain]
  rfl

/-- A renamed method has the name that its family has. -/
theorem roster_method {k : MethodId} {name : String} (hnamed : n.Named (familyOf l.graph m) name)
    (hk : k ∈ familyOf l.graph m) : (l.roster n classes).method k = name := by
  unfold Lineage.roster
  simp only
  rw [hnamed k hk]
  rfl

variable (hg : l.graph.Coherent) (hkeys : l.graph.KeysDistinct)

include hg hkeys

theorem self_mem_sharers : ∀ s ∈ walk settings l.graph, s ∈ s.sharers l.graph := by
  intro s hs
  cases s with
  | ofMethod m =>
    obtain ⟨c, _, _, hm, _⟩ := mem_walk_ofMethod.1 hs
    have hlt := ((mem_writtenMethods hg).1 hm).2.1
    exact List.mem_map.2 ⟨m, Graph.self_mem_family hg hkeys hlt, rfl⟩
  | _ => exact List.mem_cons_self

/-- A class or a field of the walk has a number of its own. -/
theorem mem_numbered_self (hs : s ∈ walk settings l.graph) (hmethod : ∀ m, s ≠ .ofMethod m) :
    s ∈ numbered settings l.graph s.category := by
  obtain ⟨t, ht, hts⟩ := Graph.exists_leader (self_mem_sharers hg hkeys) hs
  refine Allocator.mem_inCategory.2 ⟨?_, rfl⟩
  cases s with
  | ofMethod m => exact absurd rfl (hmethod m)
  | _ =>
    obtain rfl := List.mem_singleton.1 hts
    exact ht

/-- The family of a method of the walk has the number of one of its members, and is named
after it. -/
theorem exists_mem_numbered (hw : Walked l.graph first (walk settings l.graph) n)
    (hm : .ofMethod m ∈ walk settings l.graph) :
    m < l.graph.methodCount ∧ ∃ p ∈ familyOf l.graph m,
      .ofMethod p ∈ numbered settings l.graph .ofMethod ∧
        n.Named (familyOf l.graph m) (n.issued (.ofMethod p)) := by
  obtain ⟨t, ht, hts⟩ := Graph.exists_leader (self_mem_sharers hg hkeys) hm
  obtain ⟨p, hp, rfl⟩ := List.mem_map.1 hts
  obtain ⟨_, _, _, hwritten, _⟩ := mem_walk_ofMethod.1 hm
  have hlt := ((mem_writtenMethods hg).1 hwritten).2.1
  refine ⟨hlt, p, hp, Allocator.mem_inCategory.2 ⟨ht, rfl⟩, ?_⟩
  intro k hk
  exact hw.named p ht k ((Graph.mem_family_congr hg hkeys hlt hp).2 hk)

/-- Two methods of the walk have the same name if and only if they are of one family. -/
theorem roster_method_eq_iff (hnone : first.numbers = ∅)
    (hw : Walked l.graph first (walk settings l.graph) n) {m' : MethodId}
    (hm : .ofMethod m ∈ walk settings l.graph) (hm' : .ofMethod m' ∈ walk settings l.graph) :
    (l.roster n classes).method m = (l.roster n classes).method m' ↔
      m' ∈ familyOf l.graph m := by
  obtain ⟨hlt, p, hp, hnumbered, hnamed⟩ := exists_mem_numbered hg hkeys hw hm
  obtain ⟨hlt', p', hp', hnumbered', hnamed'⟩ := exists_mem_numbered hg hkeys hw hm'
  rw [roster_method hnamed (Graph.self_mem_family hg hkeys hlt)]
  constructor
  · intro h
    rw [roster_method hnamed' (Graph.self_mem_family hg hkeys hlt')] at h
    obtain rfl : p = p' := Symbol.ofMethod.inj (hw.issued_inj hnone
      (mem_leaders_of_mem_numbered hnumbered) (mem_leaders_of_mem_numbered hnumbered') h)
    exact (Graph.mem_family_congr hg hkeys hlt hp).1 (mem_familyOf_symm hg hkeys hlt' hp')
  · intro h
    exact (roster_method hnamed h).symm

/-- The state after the walk, with the targets of the classes, has the names of a first run. -/
theorem firstNames_of_walked (hchain : l.chain = {}) (hnone : first.numbers = ∅)
    (hw : Walked l.graph first (walk settings l.graph) n)
    (houtcome : l.Outcome settings n classes) :
    FirstNames settings l.graph first.counters n (l.roster n classes) := by
  have hclass : ∀ c, .ofClass c ∈ walk settings l.graph →
      .ofClass c ∈ numbered settings l.graph .ofClass := by
    intro c hc
    exact mem_numbered_self hg hkeys hc (by simp)
  have hfield : ∀ f, .ofField f ∈ walk settings l.graph →
      .ofField f ∈ numbered settings l.graph .ofField := by
    intro f hf
    exact mem_numbered_self hg hkeys hf (by simp)
  constructor
  case next =>
    intro category
    rw [hw.allocator]
    exact Allocator.next_handOut first _ category
  case numbers =>
    intro s category k
    rw [hw.allocator]
    exact Allocator.get?_handOut hnone hw.nodup
  case kept =>
    intro c hc hkeep
    exact (houtcome.target c hc).kept hkeep
  case target =>
    intro c hc hkeep
    have hunknown : l.chain.lookupClass (l.graph.className c) = none := by
      rw [hchain]
      rfl
    obtain ⟨k, hk, hfull⟩ := (houtcome.target c hc).fresh hkeep hunknown
    refine ⟨hclass c (mem_walk_ofClass.2 ⟨hc, hkeep⟩), ?_⟩
    rw [issued_eq hk]
    exact hfull
  case field =>
    intro f hf
    exact ⟨hfield f hf, roster_field hchain f⟩
  case method =>
    intro m hm
    obtain ⟨hlt, p, hp, hnumbered, hnamed⟩ := exists_mem_numbered hg hkeys hw hm
    exact ⟨p, hp, hnumbered, roster_method hnamed (Graph.self_mem_family hg hkeys hlt)⟩
  case classes_apart =>
    intro c c' hc hc' h
    exact Symbol.ofClass.inj (hw.issued_inj hnone (mem_leaders_of_mem_numbered (hclass c hc))
      (mem_leaders_of_mem_numbered (hclass c' hc')) h)
  case fields_apart =>
    intro f f' hf hf' h
    rw [roster_field hchain, roster_field hchain] at h
    exact Symbol.ofField.inj (hw.issued_inj hnone (mem_leaders_of_mem_numbered (hfield f hf))
      (mem_leaders_of_mem_numbered (hfield f' hf')) h)
  case methods_apart =>
    intro m m' hm hm'
    exact roster_method_eq_iff hg hkeys hnone hw hm hm'

end Names

/-- The first run of a graph, whatever the settings and the counters, succeeds and asks nothing.
Its numbers follow each other from the counters it starts with, in the order of its walk. Two
renamed methods that are written have the same name if and only if they are of one family; no
two renamed classes and no two renamed fields have the same. -/
theorem first_run_numbers_its_walk {source : String} {doc : Document} {l : Lineage}
    (hload : Graph.ofDocument source doc = .ok l.graph) (hkeys : l.graph.KeysDistinct)
    (hchain : l.chain = {}) (settings : Settings) (counters : List (Category × Nat)) :
    ∃ out s' R, (applyCounters { settings, lineage := l } counters).generate Policy.fail () =
        (.ok out, s', ()) ∧
      l.graph.classIds.map l.graph.className = doc.outline.map (·.2.name) ∧
      out.counters = s'.naming.allocator.counters ∧
      out.text = textOf (R.recordsOn settings l.graph (included settings l.graph)) out.counters ∧
      FirstNames settings l.graph (Counters.setAll {} counters) s'.naming R := by
  have hg := Graph.coherent_of_ofDocument hload
  obtain ⟨out, s', hrun⟩ := exists_generated settings hchain counters Policy.fail ()
  have hcandidates : l.CleanCandidates := by
    intro m _ candidate hc
    rw [Lineage.candidates_of_empty_chain hchain] at hc
    cases hc
  obtain ⟨classes, houtcome, _, _, rfl⟩ := exists_outcome_of_candidates hg hcandidates hrun
  obtain ⟨rs, hx, _⟩ := generate_eq_ok hrun
  set start := (applyCounters { settings, lineage := l } counters).naming
  have hwalk :
      Walks l start.allocator (walk settings l.graph) (allRecords settings l Policy.fail) :=
    walks_allRecords hg hkeys hchain rfl
  obtain ⟨_, n', hx', hw⟩ := hwalk [] start () (.start rfl)
  cases hx.symm.trans hx'
  exact ⟨_, s', l.roster s'.naming classes, hrun, map_className_classIds _ hload, rfl, rfl,
    firstNames_of_walked hg hkeys hchain rfl hw houtcome⟩

/-- A class with a field and a method, and one with another method and a bridge to the first. -/
def bridged : Document where
  classes := [
    { name := "a", fields := [{ name := "f", desc := "I" }],
      methods := [{ name := "x", desc := "()V" }] },
    { name := "b", methods := [{ name := "y", desc := "()V" },
      { name := "z", desc := "()V", related := [⟨"a", "x", "()V"⟩] }] }]

/-- These classes without earlier names. -/
def bridgedLineage : Lineage where
  graph := (Graph.ofDocument "" bridged).toOption.getD {}

/-- The bridge, which comes last in the walk, has no number of its own. -/
theorem first_run_numbers_its_walk_bridged :
    walk allScrambled bridgedLineage.graph = [.ofClass 0, .ofField 0, .ofMethod 0, .ofClass 1,
      .ofMethod 1, .ofMethod 2] ∧
    numbered allScrambled bridgedLineage.graph .ofMethod = [.ofMethod 0, .ofMethod 1] ∧
    ∃ out s' R, (applyCounters { settings := allScrambled, lineage := bridgedLineage }
        [(.ofMethod, 7)]).generate Policy.fail () = (.ok out, s', ()) ∧
      FirstNames allScrambled bridgedLineage.graph { methods := some 7 } s'.naming R := by
  have hload : Graph.ofDocument "" bridged = .ok bridgedLineage.graph := rfl
  have hkeys : bridgedLineage.graph.KeysDistinct := by decide
  obtain ⟨out, s', R, hrun, _, _, _, hnames⟩ :=
    first_run_numbers_its_walk hload hkeys rfl allScrambled [(.ofMethod, 7)]
  exact ⟨by cbv, by cbv, out, s', R, hrun, hnames⟩

end Session

end StableNames
