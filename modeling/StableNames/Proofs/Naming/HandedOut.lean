-- Numbers in the order in which they are handed out. Each category counts
-- on by itself, so after some symbols got their numbers, those of a
-- category follow each other from the counter at the start. Symbols that
-- share a name get one number, and the first of them has it.
import Mathlib.Data.List.Induction
import StableNames.Proofs.Naming.FamilyNames
import StableNames.Proofs.Naming.Growth
import StableNames.Proofs.Session.FirstRun

namespace StableNames

/-! ## Numbers for a list of symbols -/

namespace Allocator

/-- The allocator after each of the symbols got the next number of its category. -/
def handOut (a : Allocator) (symbols : List Symbol) : Allocator :=
  symbols.foldl
    (fun a s => ⟨a.counters.set s.category (a.next s.category + 1),
      a.numbers.insert s (s.category, a.next s.category)⟩) a

variable {a : Allocator} {symbols : List Symbol} {s : Symbol} {category : Category} {k : Nat}

theorem handOut_append_singleton (a : Allocator) (symbols : List Symbol) (s : Symbol) :
    a.handOut (symbols ++ [s]) =
      ⟨(a.handOut symbols).counters.set s.category ((a.handOut symbols).next s.category + 1),
        (a.handOut symbols).numbers.insert s
          (s.category, (a.handOut symbols).next s.category)⟩ := by
  unfold handOut
  rw [List.foldl_append]
  rfl

/-- The symbols of a category. -/
def inCategory (category : Category) (symbols : List Symbol) : List Symbol :=
  symbols.filter (·.category = category)

theorem inCategory_append_self (symbols : List Symbol) (s : Symbol) :
    inCategory s.category (symbols ++ [s]) = inCategory s.category symbols ++ [s] := by
  simp [inCategory]

theorem inCategory_append_other (symbols : List Symbol) (h : s.category ≠ category) :
    inCategory category (symbols ++ [s]) = inCategory category symbols := by
  simp [inCategory, h]

/-- A counter goes up by one for each symbol of its category. -/
theorem next_handOut (a : Allocator) (symbols : List Symbol) (category : Category) :
    (a.handOut symbols).next category = a.next category + (inCategory category symbols).length := by
  induction symbols using List.reverseRecOn with
  | nil => rfl
  | append_singleton symbols s ih =>
    rw [handOut_append_singleton]
    show ((Counters.set _ _ _).get? category).getD firstNumber = _
    rw [Counters.get?_set]
    by_cases h : s.category = category
    · subst h
      rw [if_pos rfl, inCategory_append_self, List.length_append, Option.getD_some, ih]
      rfl
    · rw [if_neg h, inCategory_append_other _ h, ← ih]
      rfl

theorem mem_inCategory : s ∈ inCategory category symbols ↔ s ∈ symbols ∧ s.category = category := by
  simp [inCategory]

/-- The last symbol stands at the last place and at no other, if it is new. -/
theorem getElem?_concat_self {symbols : List Symbol} (h : s ∉ symbols) {i : Nat} :
    (symbols ++ [s])[i]? = some s ↔ i = symbols.length := by
  constructor
  · intro hi
    have hlt := (List.getElem?_eq_some_iff.1 hi).1
    rw [List.length_append, List.length_singleton] at hlt
    by_contra hne
    rw [List.getElem?_append_left (by omega)] at hi
    exact h (List.mem_of_getElem? hi)
  · rintro rfl
    exact List.getElem?_concat_length

theorem getElem?_concat_of_ne {symbols : List Symbol} {t : Symbol} (h : t ≠ s) {i : Nat} :
    (symbols ++ [t])[i]? = some s ↔ symbols[i]? = some s := by
  by_cases hi : i < symbols.length
  · rw [List.getElem?_append_left hi]
  · rw [List.getElem?_append_right (by omega),
      List.getElem?_eq_none (by omega : symbols.length ≤ i), List.getElem?_singleton]
    split
    · simp [h]
    · rfl

/-- The symbols of a category have the numbers from its counter on, in their order. -/
theorem get?_handOut (hnone : a.numbers = ∅) (hnodup : symbols.Nodup) :
    (a.handOut symbols).numbers.get? s = some (category, k) ↔
      ∃ i, (inCategory category symbols)[i]? = some s ∧ k = a.next category + i := by
  induction symbols using List.reverseRecOn generalizing s category k with
  | nil =>
    show a.numbers.get? s = _ ↔ _
    rw [hnone, Assoc.get?_empty]
    simp [inCategory]
  | append_singleton symbols t ih =>
    obtain ⟨hnodup, _, hnew⟩ := List.nodup_append.1 hnodup
    have ht : ∀ category, t ∉ inCategory category symbols :=
      fun _ hmem => hnew t (mem_inCategory.1 hmem).1 t List.mem_cons_self rfl
    rw [handOut_append_singleton, Assoc.get?_insert]
    by_cases hs : t = s
    · -- the last symbol has the counter as it was before it
      subst hs
      rw [if_pos rfl, next_handOut, Option.some.injEq, Prod.mk.injEq]
      by_cases hcategory : t.category = category
      · subst hcategory
        simp only [inCategory_append_self, getElem?_concat_self (ht t.category), exists_eq_left,
          true_and, eq_comm]
      · rw [inCategory_append_other _ hcategory]
        simp only [hcategory, false_and, false_iff, not_exists, not_and]
        exact fun i hi => absurd (List.mem_of_getElem? hi) (ht category)
    · rw [if_neg hs, ih hnodup]
      by_cases hcategory : t.category = category
      · subst hcategory
        simp only [inCategory_append_self, getElem?_concat_of_ne hs]
      · rw [inCategory_append_other _ hcategory]

end Allocator

/-! ## Symbols that share a name -/

open Naming

/-- The symbols that have one name with a symbol. -/
def Symbol.sharers (g : Graph) : Symbol → List Symbol
  | .ofMethod m => (familyOf g m).map .ofMethod
  | s => [s]

/-- The symbols that come first of all that share their name. -/
def Graph.leaders (g : Graph) (symbols : List Symbol) : List Symbol :=
  symbols.foldl (fun found s => if found.any (· ∈ s.sharers g) then found else found ++ [s]) []

namespace Graph

variable {g : Graph} {symbols : List Symbol} {s t : Symbol}

theorem leaders_append_of_mem (ht : t ∈ g.leaders symbols) (hts : t ∈ s.sharers g) :
    g.leaders (symbols ++ [s]) = g.leaders symbols := by
  unfold leaders at ht ⊢
  rw [List.foldl_append, List.foldl_cons, List.foldl_nil, if_pos]
  exact List.any_eq_true.2 ⟨t, ht, decide_eq_true hts⟩

theorem leaders_append_of_new (hnew : ∀ t ∈ g.leaders symbols, t ∉ s.sharers g) :
    g.leaders (symbols ++ [s]) = g.leaders symbols ++ [s] := by
  unfold leaders at hnew ⊢
  rw [List.foldl_append, List.foldl_cons, List.foldl_nil, if_neg]
  intro h
  obtain ⟨t, ht, hts⟩ := List.any_eq_true.1 h
  exact hnew t ht (of_decide_eq_true hts)

theorem leaders_append_subset (ht : t ∈ g.leaders symbols) (s : Symbol) :
    t ∈ g.leaders (symbols ++ [s]) := by
  by_cases h : ∃ t' ∈ g.leaders symbols, t' ∈ s.sharers g
  · obtain ⟨t', ht', hts⟩ := h
    rw [leaders_append_of_mem ht' hts]
    exact ht
  · rw [leaders_append_of_new fun t' ht' hts => h ⟨t', ht', hts⟩]
    exact List.mem_append_left _ ht

/-- Every symbol shares its name with one that is not after it and comes first. -/
theorem exists_leader (hself : ∀ s ∈ symbols, s ∈ s.sharers g) (hs : s ∈ symbols) :
    ∃ t ∈ g.leaders symbols, t ∈ s.sharers g := by
  induction symbols using List.reverseRecOn with
  | nil => cases hs
  | append_singleton symbols u ih =>
    rcases List.mem_append.1 hs with hs | hs
    · obtain ⟨t, ht, hts⟩ := ih (fun s hs => hself s (List.mem_append_left _ hs)) hs
      exact ⟨t, leaders_append_subset ht u, hts⟩
    · obtain rfl := List.mem_singleton.1 hs
      by_cases h : ∃ t ∈ g.leaders symbols, t ∈ s.sharers g
      · obtain ⟨t, ht, hts⟩ := h
        exact ⟨t, leaders_append_subset ht s, hts⟩
      · rw [leaders_append_of_new fun t ht hts => h ⟨t, ht, hts⟩]
        exact ⟨s, List.mem_append_right _ List.mem_cons_self,
          hself s (List.mem_append_right _ List.mem_cons_self)⟩

end Graph

theorem mem_familyOf_symm {g : Graph} (hg : g.Coherent) (hkeys : g.KeysDistinct) {m k : MethodId}
    (hm : m < g.methodCount) (hk : k ∈ familyOf g m) : m ∈ familyOf g k :=
  (Graph.mem_family_congr hg hkeys hm hk).2 (Graph.self_mem_family hg hkeys hm)

/-! ## States of a walk -/

/-- The state of a run without earlier names after these symbols were named. Those that come
first of their kind have the numbers from `first` on, and their families have their names. -/
structure Naming.Walked (g : Graph) (first : Allocator) (seen : List Symbol) (n : Naming) :
    Prop where
  allocator : n.allocator = first.handOut (g.leaders seen)
  nodup : (g.leaders seen).Nodup
  lt : ∀ m, .ofMethod m ∈ g.leaders seen → m < g.methodCount
  named : ∀ m, .ofMethod m ∈ g.leaders seen →
    n.Named (familyOf g m) (n.issued (.ofMethod m))
  exists_leader : ∀ k name, n.resolved.get? k = some name →
    ∃ m, .ofMethod m ∈ g.leaders seen ∧ k ∈ familyOf g m

namespace Naming.Walked

variable {g : Graph} {first : Allocator} {seen : List Symbol} {s t : Symbol} {n n' : Naming}

/-- Before the walk nothing is named. -/
theorem start (hresolved : n.resolved = ∅) : Walked g n.allocator [] n where
  allocator := rfl
  nodup := List.nodup_nil
  lt _ h := by cases h
  named _ h := by cases h
  exists_leader k name h := by
    rw [hresolved, Assoc.get?_empty] at h
    cases h

/-- A state with the same names and the same allocator is as far. -/
theorem congr (hw : Walked g first seen n) (hallocator : n'.allocator = n.allocator)
    (hresolved : n'.resolved = n.resolved) : Walked g first seen n' := by
  refine ⟨hallocator.trans hw.allocator, hw.nodup, hw.lt, ?_, ?_⟩
  · unfold Named issued
    rw [hallocator, hresolved]
    exact hw.named
  · rw [hresolved]
    exact hw.exists_leader

/-- A symbol that shares the name of an earlier one adds nothing. -/
theorem again (hw : Walked g first seen n) (ht : t ∈ g.leaders seen) (hts : t ∈ s.sharers g) :
    Walked g first (seen ++ [s]) n := by
  have heq := Graph.leaders_append_of_mem ht hts
  refine ⟨?_, ?_, ?_, ?_, ?_⟩ <;> rw [heq]
  · exact hw.allocator
  · exact hw.nodup
  · exact hw.lt
  · exact hw.named
  · exact hw.exists_leader

section

variable (hnone : first.numbers = ∅)

include hnone

theorem exists_number (hw : Walked g first seen n) (hs : s ∈ g.leaders seen) :
    ∃ k, n.allocator.numbers.get? s = some (s.category, k) := by
  obtain ⟨i, hi⟩ := List.getElem?_of_mem (Allocator.mem_inCategory.2 ⟨hs, rfl⟩)
  rw [hw.allocator]
  exact ⟨_, (Allocator.get?_handOut hnone hw.nodup).2 ⟨i, hi, rfl⟩⟩

theorem mem_leaders (hw : Walked g first seen n) {e : Category × Nat}
    (he : n.allocator.numbers.get? s = some e) : s ∈ g.leaders seen := by
  rw [hw.allocator] at he
  obtain ⟨i, hi, _⟩ := (Allocator.get?_handOut hnone hw.nodup).1 he
  exact (Allocator.mem_inCategory.1 (List.mem_of_getElem? hi)).1

/-- No number is handed out twice. -/
theorem issued_inj (hw : Walked g first seen n) (hs : s ∈ g.leaders seen)
    (ht : t ∈ g.leaders seen) (h : n.issued s = n.issued t) : s = t := by
  obtain ⟨k, hk⟩ := hw.exists_number hnone hs
  obtain ⟨k', hk'⟩ := hw.exists_number hnone ht
  rw [issued_eq hk, issued_eq hk'] at h
  obtain ⟨hcategory, rfl⟩ := Category.name_inj h
  rw [hw.allocator] at hk hk'
  rw [hcategory] at hk
  obtain ⟨i, hi, hki⟩ := (Allocator.get?_handOut hnone hw.nodup).1 hk
  obtain ⟨j, hj, hkj⟩ := (Allocator.get?_handOut hnone hw.nodup).1 hk'
  obtain rfl : i = j := by omega
  rw [hi] at hj
  exact Option.some.inj hj

/-- A symbol that shares no name with an earlier one has the next number. -/
theorem exists_allocated (hw : Walked g first seen n) (hself : s ∈ s.sharers g)
    (hnew : ∀ t ∈ g.leaders seen, t ∉ s.sharers g) :
    ∃ name a, n.allocator.allocate s s.category = .ok (name, a) ∧
      a = first.handOut (g.leaders (seen ++ [s])) ∧ (g.leaders (seen ++ [s])).Nodup := by
  have hs : n.allocator.numbers.get? s = none := by
    rcases hs : n.allocator.numbers.get? s with _ | e
    · rfl
    · exact absurd hself (hnew s (hw.mem_leaders hnone hs))
  rw [Graph.leaders_append_of_new hnew, Allocator.handOut_append_singleton, ← hw.allocator]
  unfold Allocator.allocate
  rw [hs]
  refine ⟨_, _, rfl, rfl, List.nodup_append.2 ⟨hw.nodup, List.nodup_singleton s, ?_⟩⟩
  intro t ht s' hs' heq
  obtain rfl := List.mem_singleton.1 hs'
  exact hnew t ht (heq ▸ hself)

/-- The names of families stay as more numbers are handed out. -/
theorem issued_eq_of_allocate (hw : Walked g first seen n) {a : Allocator} {name : String}
    (ha : n.allocator.allocate s s.category = .ok (name, a)) (hallocator : n'.allocator = a)
    (ht : t ∈ g.leaders seen) : n'.issued t = n.issued t := by
  obtain ⟨k, hk⟩ := hw.exists_number hnone ht
  have hk' : n'.allocator.numbers.get? t = some (t.category, k) := by
    rw [hallocator]
    exact (Allocator.allocate_eq_ok ha).1 _ _ hk
  rw [issued_eq hk, issued_eq hk']

/-- The step for a class or a field. -/
theorem exec_allocate (hw : Walked g first seen n) (hs : ∀ m, s ≠ .ofMethod m) :
    ∃ name n', (allocate s s.category).exec n = (.ok name, n') ∧
      Walked g first (seen ++ [s]) n' := by
  have hsharers : s.sharers g = [s] := by
    cases s with
    | ofMethod m => exact absurd rfl (hs m)
    | _ => rfl
  have hself : s ∈ s.sharers g := by
    rw [hsharers]
    exact List.mem_cons_self
  rw [Naming.exec_allocate]
  by_cases hmem : s ∈ g.leaders seen
  · obtain ⟨k, hk⟩ := hw.exists_number hnone hmem
    unfold Allocator.allocate
    rw [hk]
    simp only [if_true]
    exact ⟨_, n, rfl, hw.again hmem hself⟩
  · have hnew : ∀ t ∈ g.leaders seen, t ∉ s.sharers g := by
      intro t ht hts
      rw [hsharers, List.mem_singleton] at hts
      exact hmem (hts ▸ ht)
    obtain ⟨name, a, ha, hout, hnodup⟩ := hw.exists_allocated hnone hself hnew
    rw [ha]
    have hold : ∀ m, .ofMethod m ∈ g.leaders (seen ++ [s]) → .ofMethod m ∈ g.leaders seen := by
      intro m hm
      rw [Graph.leaders_append_of_new hnew] at hm
      rcases List.mem_append.1 hm with hm | hm
      · exact hm
      · exact absurd (List.mem_singleton.1 hm).symm (hs m)
    refine ⟨name, { n with allocator := a }, rfl, hout, hnodup, fun m hm => hw.lt m (hold m hm),
      ?_, ?_⟩
    · intro m hm
      rw [hw.issued_eq_of_allocate hnone ha rfl (hold m hm)]
      exact hw.named m (hold m hm)
    · intro k name' hk
      obtain ⟨m, hm, hkm⟩ := hw.exists_leader k name' hk
      exact ⟨m, Graph.leaders_append_subset hm s, hkm⟩

/-- A method whose family has no name gets the next number for all of it. -/
theorem withFamily (hw : Walked g first seen n) (hg : g.Coherent) (hkeys : g.KeysDistinct)
    {m : MethodId} (hm : m < g.methodCount) (hu : n.Unnamed (m :: familyOf g m))
    (hnew : ∀ t ∈ g.leaders seen, t ∉ (Symbol.ofMethod m).sharers g) {name : String}
    {a : Allocator} (ha : n.allocator.allocate (.ofMethod m) .ofMethod = .ok (name, a))
    (hout : a = first.handOut (g.leaders (seen ++ [.ofMethod m])))
    (hnodup : (g.leaders (seen ++ [.ofMethod m])).Nodup) :
    Walked g first (seen ++ [.ofMethod m])
      ({ n with allocator := a }.withNames (m :: familyOf g m) name) := by
  have hself := Graph.self_mem_family hg hkeys hm
  have hcases : ∀ p, .ofMethod p ∈ g.leaders (seen ++ [.ofMethod m]) →
      .ofMethod p ∈ g.leaders seen ∨ p = m := by
    intro p hp
    rw [Graph.leaders_append_of_new hnew] at hp
    rcases List.mem_append.1 hp with hp | hp
    · exact .inl hp
    · cases List.mem_singleton.1 hp
      exact .inr rfl
  refine ⟨hout, hnodup, ?lt, ?named, ?leader⟩
  case lt =>
    intro p hp
    rcases hcases p hp with hp | rfl
    · exact hw.lt p hp
    · exact hm
  case named =>
    intro p hp k hk
    rw [get?_withNames]
    rcases hcases p hp with hp | rfl
    · have hname := hw.named p hp k hk
      have hother : k ∉ m :: familyOf g m := by
        intro hkm
        rw [hu k hkm] at hname
        cases hname
      rw [if_neg hother, hname]
      exact congrArg some (hw.issued_eq_of_allocate hnone ha rfl hp).symm
    · rw [if_pos (List.mem_cons_of_mem _ hk)]
      obtain ⟨_, i, hi, rfl⟩ := Allocator.allocate_eq_ok ha
      exact congrArg some (issued_eq hi).symm
  case leader =>
    intro k name' hk
    rw [get?_withNames] at hk
    split at hk
    · rename_i hkm
      refine ⟨m, ?_, ?_⟩
      · rw [Graph.leaders_append_of_new hnew]
        exact List.mem_append_right _ List.mem_cons_self
      · rcases List.mem_cons.1 hkm with rfl | hkm
        · exact hself
        · exact hkm
    · obtain ⟨p, hp, hkp⟩ := hw.exists_leader k name' hk
      exact ⟨p, Graph.leaders_append_subset hp _, hkp⟩

/-- The step for a method. -/
theorem exec_resolve {μ : Type} {l : Lineage} {m : MethodId} (hg : l.graph.Coherent)
    (hkeys : l.graph.KeysDistinct) (hchain : l.chain = {}) (hw : Walked l.graph first seen n)
    (hm : m < l.graph.methodCount) (policy : Policy μ) (memory : μ) :
    ∃ name n', (resolve l policy (l.graph.method m).owner m).exec (n, memory) =
        (.ok name, n', memory) ∧ Walked l.graph first (seen ++ [.ofMethod m]) n' := by
  have hcandidates := Lineage.candidates_of_empty_chain hchain (l.graph.method m).owner m
  have hself := Graph.self_mem_family hg hkeys hm
  have hcall := call_of_resolve l policy (l.graph.method m).owner m n memory
  rcases hx : (resolve l policy (l.graph.method m).owner m).exec (n, memory) with
    ⟨answer, n', memory'⟩
  rw [hx] at hcall
  cases hcall with
  | @known name hname =>
    obtain ⟨p, hp, hmp⟩ := hw.exists_leader m name hname
    have hpm := mem_familyOf_symm hg hkeys (hw.lt p hp) hmp
    exact ⟨name, _, rfl, hw.again hp (List.mem_map.2 ⟨p, hpm, rfl⟩)⟩
  | @inherited name k hnot hk hname =>
    -- the whole family of a leader is named, so one without a name has no leader
    obtain ⟨p, hp, hkp⟩ := hw.exists_leader k name hname
    have hmk := mem_familyOf_symm hg hkeys hm hk
    have hmp := (Graph.mem_family_congr hg hkeys (hw.lt p hp) hkp).1 hmk
    rw [hw.named p hp m hmp] at hnot
    cases hnot
  | @settled candidate? _ _ hu hc hs =>
    have hnew : ∀ t ∈ l.graph.leaders seen, t ∉ (Symbol.ofMethod m).sharers l.graph := by
      intro t ht hts
      obtain ⟨p, hpm, rfl⟩ := List.mem_map.1 hts
      have hp := hw.named p ht p (Graph.self_mem_family hg hkeys (hw.lt p ht))
      rw [hu p (List.mem_cons_of_mem _ hpm)] at hp
      cases hp
    obtain ⟨name, a, ha, hout, hnodup⟩ :=
      hw.exists_allocated hnone (List.mem_map.2 ⟨m, hself, rfl⟩) hnew
    rw [hcandidates] at hc
    obtain rfl : candidate? = none := by
      rcases candidate? with _ | candidate
      · rfl
      · cases hc
    cases hs with
    | @fresh name' a' ha' =>
      obtain ⟨rfl, rfl⟩ := Prod.mk.inj (Except.ok.inj (ha.symm.trans ha'))
      exact ⟨_, _, rfl, hw.withFamily hnone hg hkeys hm hu hnew ha' hout hnodup⟩
    | refused _ ha' =>
      rw [Symbol.category, ha'] at ha
      cases ha
  | undecided hu hc => rw [hcandidates] at hc; cases hc
  | misplaced hu hc => rw [hcandidates] at hc; cases hc
  | decided hu hc => rw [hcandidates] at hc; cases hc

end

end Naming.Walked

end StableNames
