-- Numbers of the symbols of a part. Symbols of a part share names with each
-- other alone, so those that come first are the same in the part and in the
-- whole graph. If the whole graph starts with the part, or gets to it with
-- the counters that the part starts with, then it hands out the same
-- numbers to them.
import StableNames.Proofs.Graph.Joined
import StableNames.Proofs.Naming.HandedOut

namespace StableNames

open Naming

/-! ## Symbols of a part -/

/-- The symbol that stands behind the offset. -/
def Symbol.moved (o : Offset) : Symbol → Symbol
  | .ofClass c => .ofClass (o.classes + c)
  | .ofField f => .ofField (o.fields + f)
  | .ofMethod m => .ofMethod (o.methods + m)

namespace Symbol

variable {o : Offset} {s t : Symbol}

@[simp] theorem category_moved (o : Offset) (s : Symbol) : (s.moved o).category = s.category := by
  cases s <;> rfl

theorem moved_inj (h : s.moved o = t.moved o) : s = t := by
  cases s <;> cases t <;> simp_all [moved]

/-- What stands behind a graph is none of its symbols. -/
theorem moved_ne_moved {g : Graph} (hs : g.Has s) (t : Symbol) :
    s.moved ⟨0, 0, 0⟩ ≠ t.moved ⟨g.classCount, g.fields.size, g.methodCount⟩ := by
  have hne : ∀ x n y : Nat, x < n → 0 + x ≠ n + y := by
    omega
  intro h
  unfold moved at h
  cases s <;> cases t <;> simp only [reduceCtorEq] at h
  · exact hne _ _ _ hs (Symbol.ofClass.inj h)
  · exact hne _ _ _ hs (Symbol.ofField.inj h)
  · exact hne _ _ _ hs (Symbol.ofMethod.inj h)

end Symbol

namespace Graph

variable {o : Offset} {g g' : Graph} {symbols before : List Symbol} {s t : Symbol}

theorem mem_of_mem_leaders (h : s ∈ g.leaders symbols) : s ∈ symbols := by
  induction symbols using List.reverseRecOn with
  | nil => cases h
  | append_singleton symbols u ih =>
    by_cases hu : ∃ t ∈ g.leaders symbols, t ∈ u.sharers g
    · obtain ⟨t, ht, htu⟩ := hu
      rw [leaders_append_of_mem ht htu] at h
      exact List.mem_append_left _ (ih h)
    · rw [leaders_append_of_new fun t ht htu => hu ⟨t, ht, htu⟩] at h
      rcases List.mem_append.1 h with h | h
      · exact List.mem_append_left _ (ih h)
      · exact List.mem_append_right _ h

section Parts

variable (h : Part o g g') (hg : g.Coherent) (hg' : g'.Coherent) (hkeys : g.KeysDistinct)
  (hkeys' : g'.KeysDistinct)

include h hg hg' hkeys hkeys'

/-- A symbol of the part shares its name with symbols of the part. -/
theorem Part.mem_sharers (hs : g.Has s) :
    t ∈ (s.moved o).sharers g' ↔ ∃ u ∈ s.sharers g, t = u.moved o := by
  cases s with
  | ofMethod m =>
    unfold Symbol.moved Symbol.sharers
    simp only [List.mem_map]
    constructor
    · rintro ⟨k, hk, rfl⟩
      obtain ⟨n, hn, rfl⟩ := (h.mem_family hg hg' hkeys hkeys' hs).1 hk
      exact ⟨_, ⟨n, hn, rfl⟩, rfl⟩
    · rintro ⟨_, ⟨n, hn, rfl⟩, rfl⟩
      exact ⟨_, (h.mem_family hg hg' hkeys hkeys' hs).2 ⟨n, hn, rfl⟩, rfl⟩
  | _ => simp [Symbol.moved, Symbol.sharers]

/-- After symbols from outside, those of the part that come first are those that come first in
the part. -/
theorem Part.leaders_append (hs : ∀ s ∈ symbols, g.Has s)
    (hbefore : ∀ t ∈ g'.leaders before, ∀ u : Symbol, t ≠ u.moved o) :
    g'.leaders (before ++ symbols.map (·.moved o)) =
      g'.leaders before ++ (g.leaders symbols).map (·.moved o) := by
  -- from the end, since whether a symbol comes first depends on those before it
  induction symbols using List.reverseRecOn with
  | nil => simp [leaders]
  | append_singleton symbols s ih =>
    have hsymbols := ih fun s hs' => hs s (List.mem_append_left _ hs')
    have hsharers := fun t => @Part.mem_sharers o g g' s t h hg hg' hkeys hkeys'
      (hs s (List.mem_append_right _ List.mem_cons_self))
    rw [List.map_append, ← List.append_assoc, List.map_singleton]
    by_cases hshared : ∃ t ∈ g.leaders symbols, t ∈ s.sharers g
    · obtain ⟨t, ht, hts⟩ := hshared
      have hmem : t.moved o ∈ g'.leaders (before ++ symbols.map (·.moved o)) := by
        rw [hsymbols]
        exact List.mem_append_right _ (List.mem_map_of_mem ht)
      rw [leaders_append_of_mem ht hts,
        leaders_append_of_mem hmem ((hsharers _).2 ⟨t, hts, rfl⟩), hsymbols]
    · have hnew : ∀ t ∈ g'.leaders (before ++ symbols.map (·.moved o)),
          t ∉ (s.moved o).sharers g' := by
        intro t ht hts
        obtain ⟨u, hu, rfl⟩ := (hsharers t).1 hts
        rw [hsymbols] at ht
        rcases List.mem_append.1 ht with ht | ht
        · exact hbefore _ ht u rfl
        · obtain ⟨v, hv, heq⟩ := List.mem_map.1 ht
          exact hshared ⟨u, Symbol.moved_inj heq ▸ hv, hu⟩
      rw [leaders_append_of_new fun t ht hts => hshared ⟨t, ht, hts⟩, leaders_append_of_new hnew,
        hsymbols, List.map_append, List.map_singleton, List.append_assoc]

end Parts

end Graph

/-! ## Numbers of a part -/

namespace Allocator

variable {o : Offset} {a a' : Allocator} {before symbols after : List Symbol} {s : Symbol}
  {category : Category} {k : Nat}

theorem handOut_append (a : Allocator) (symbols symbols' : List Symbol) :
    a.handOut (symbols ++ symbols') = (a.handOut symbols).handOut symbols' :=
  List.foldl_append

theorem inCategory_append (category : Category) (symbols symbols' : List Symbol) :
    inCategory category (symbols ++ symbols') =
      inCategory category symbols ++ inCategory category symbols' :=
  List.filter_append _ _

theorem inCategory_moved (o : Offset) (category : Category) (symbols : List Symbol) :
    inCategory category (symbols.map (·.moved o)) =
      (inCategory category symbols).map (·.moved o) := by
  unfold inCategory
  rw [List.filter_map]
  simp only [Function.comp_def, Symbol.category_moved]

/-- The counters count symbols, whichever they are. -/
theorem counters_handOut_moved (h : a'.counters = a.counters) (symbols : List Symbol) :
    (a'.handOut (symbols.map (·.moved o))).counters = (a.handOut symbols).counters := by
  induction symbols generalizing a a' with
  | nil => exact h
  | cons s symbols ih =>
    refine ih ?_
    unfold next
    simp only [h, Symbol.category_moved]

/-- Every symbol has a number of its own. -/
theorem allocated_handOut (hnone : a.numbers = ∅) (hnodup : symbols.Nodup) :
    (a.handOut symbols).allocated = symbols.length := by
  induction symbols using List.reverseRecOn with
  | nil =>
    show a.numbers.size = 0
    rw [hnone]
    rfl
  | append_singleton symbols s ih =>
    obtain ⟨hnodup, _, hnew⟩ := List.nodup_append.1 hnodup
    have hs : (a.handOut symbols).numbers.get? s = none := by
      rcases hs : (a.handOut symbols).numbers.get? s with _ | ⟨category, k⟩
      · rfl
      · obtain ⟨i, hi, _⟩ := (get?_handOut hnone hnodup).1 hs
        have hmem := (mem_inCategory.1 (List.mem_of_getElem? hi)).1
        exact absurd rfl (hnew s hmem s List.mem_cons_self)
    rw [handOut_append_singleton, List.length_append, List.length_singleton, ← ih hnodup]
    exact Assoc.size_insert_of_none hs _

/-- With the counters that the symbols start with, they get the numbers that they get alone. -/
theorem get?_handOut_moved (hnone : a.numbers = ∅) (hnone' : a'.numbers = ∅)
    (hnodup : symbols.Nodup) (hnodup' : (before ++ symbols.map (·.moved o) ++ after).Nodup)
    (hnext : ∀ category, a.next category = (a'.handOut before).next category)
    (hs : (a.handOut symbols).numbers.get? s = some (category, k)) :
    (a'.handOut (before ++ symbols.map (·.moved o) ++ after)).numbers.get? (s.moved o) =
      some (category, k) := by
  obtain ⟨i, hi, rfl⟩ := (get?_handOut hnone hnodup).1 hs
  refine (get?_handOut hnone' hnodup').2 ⟨(inCategory category before).length + i, ?_, ?_⟩
  · rw [inCategory_append, inCategory_append, inCategory_moved, getElem?_middle, List.getElem?_map,
      hi]
    · rfl
    · rw [List.length_map]
      exact (List.getElem?_eq_some_iff.1 hi).1
  · rw [hnext, next_handOut, Nat.add_assoc]

end Allocator

end StableNames
