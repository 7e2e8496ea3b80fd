-- Tables in which every new name ends in a number. No two keys have the
-- same number, and all numbers are behind the counter. A run that takes
-- its names from such a table, and all others from its counters, makes
-- such a table again.
import Mathlib.Data.List.Nodup
import StableNames.Proofs.Naming.Numbers
import StableNames.Proofs.Text.Places

namespace StableNames

variable {κ ι : Type} {category : Category} {cs : Counters} {official : κ → String}
  {entries : List (κ × String)}

/-- Each key has one target. It is the official name of the key, without the marker, or else
it ends in a number behind the counter that no other key has. -/
structure Tagged (category : Category) (cs : Counters) (official : κ → String)
    (entries : List (κ × String)) : Prop where
  keys : (entries.map (·.1)).Nodup
  cases : ∀ k target, (k, target) ∈ entries →
    (target = official k ∧ category.owns target = false) ∨
      ∃ place n, target = place ++ category.name n ∧ ∃ b, cs.get? category = some b ∧ n < b
  inj : ∀ k k' place place' n, (k, place ++ category.name n) ∈ entries →
    (k', place' ++ category.name n) ∈ entries → k = k'

/-- How a symbol got the number `n`: it is a new one, or the one that its earlier key had in
the table. -/
inductive NumberedBy (a : Allocator) (category : Category) (entries : List (κ × String))
    (s : Symbol) (old? : Option κ) (n : Nat) : Prop
  | anew (hs : a.numbers.get? s = some (category, n))
  | kept {old : κ} {place : String} (hold : old? = some old)
      (he : (old, place ++ category.name n) ∈ entries)

namespace Tagged

theorem empty (category : Category) (cs : Counters) (official : κ → String) :
    Tagged category cs official [] :=
  ⟨List.nodup_nil, by simp, by simp⟩

/-- A target with the marker ends in a number behind the counter. -/
theorem exists_number (h : Tagged category cs official entries) {k : κ} {target : String}
    (he : (k, target) ∈ entries) (ho : category.owns target = true) :
    ∃ place n, target = place ++ category.name n ∧ ∃ b, cs.get? category = some b ∧ n < b := by
  rcases h.cases k target he with ⟨_, hno⟩ | h
  · rw [ho] at hno
    cases hno
  · exact h

theorem lt_counter (h : Tagged category cs official entries) {k : κ} {place : String} {n : Nat}
    (he : (k, place ++ category.name n) ∈ entries) : ∃ b, cs.get? category = some b ∧ n < b := by
  obtain ⟨place', n', heq, hlt⟩ := h.exists_number he
    (Category.owns_append place (Category.owns_name category n))
  rwa [Category.number_eq heq]

/-- Targets of different keys differ, as far as they have numbers. -/
theorem nodup_targets (h : Tagged category cs official entries)
    {picked : List (κ × String)} (hsub : picked.Sublist entries)
    (hkept : ∀ k k' target, (k, target) ∈ picked → (k', target) ∈ picked →
      target = official k → target = official k' → k = k') :
    (picked.map (·.2)).Nodup := by
  have hnodup : picked.Nodup := (List.Nodup.of_map _ h.keys).sublist hsub
  refine hnodup.map_on ?_
  rintro ⟨k, target⟩ he ⟨k', _⟩ he' rfl
  suffices k = k' by rw [this]
  rcases h.cases k target (hsub.subset he) with ⟨hk, hno⟩ | ⟨place, n, rfl, _⟩
  · rcases h.cases k' target (hsub.subset he') with ⟨hk', _⟩ | ⟨place, n, rfl, _⟩
    · exact hkept k k' target he he' hk hk'
    · rw [Category.owns_append place (Category.owns_name category n)] at hno
      cases hno
  · exact h.inj k k' place place n (hsub.subset he) (hsub.subset he')

/-! ## The table of a run -/

variable {a : Allocator} {s s' : Symbol} {old? old?' : Option κ} {n : Nat}

theorem lt_of_numberedBy (h : Tagged category cs official entries) (ha : a.Tidy cs)
    (hs : NumberedBy a category entries s old? n) :
    ∃ b, a.counters.get? category = some b ∧ n < b := by
  cases hs with
  | anew hs => exact ha.lt_counter s category n hs
  | kept hold he =>
    obtain ⟨b, hb, hlt⟩ := h.lt_counter he
    obtain ⟨b', hb', hle⟩ := ha.grows.get? hb
    exact ⟨b', hb', Nat.lt_of_lt_of_le hlt hle⟩

/-- A new number is not in the table yet. -/
theorem ne_of_anew (h : Tagged category cs official entries) (ha : a.Tidy cs)
    (hs : a.numbers.get? s = some (category, n)) {k : κ} {place : String} :
    (k, place ++ category.name n) ∉ entries := by
  intro he
  obtain ⟨b, hb, hlt⟩ := h.lt_counter he
  have hle := ha.first_le s category n hs
  unfold Counters.next at hle
  rw [hb, Option.getD_some] at hle
  omega

/-- Symbols with the same number are the same, or go by the same earlier key. -/
theorem eq_of_numberedBy (h : Tagged category cs official entries) (ha : a.Tidy cs)
    (hs : NumberedBy a category entries s old? n) (hs' : NumberedBy a category entries s' old?' n) :
    s = s' ∨ ∃ old, old? = some old ∧ old?' = some old := by
  cases hs with
  | anew hs =>
    cases hs' with
    | anew hs' => exact .inl (ha.inj s s' _ hs hs')
    | kept _ he' => exact absurd he' (h.ne_of_anew ha hs)
  | kept hold he =>
    cases hs' with
    | anew hs' => exact absurd he (h.ne_of_anew ha hs')
    | kept hold' he' =>
      obtain rfl := h.inj _ _ _ _ n he he'
      exact .inr ⟨_, hold, hold'⟩

/-- The table of a run. Each of the symbols keeps its official name, or has a number from
its counters or from the table before it. No two of them go by the same earlier key. -/
theorem of_numberedBy (h : Tagged category cs official entries) (ha : a.Tidy cs) {xs : List ι}
    (key : ι → κ) (target : ι → String) (symbol : ι → Symbol) (old? : ι → Option κ)
    (hkeys : (xs.map key).Nodup) (hsymbol : ∀ x y, symbol x = symbol y → x = y)
    (hold : ∀ x ∈ xs, ∀ y ∈ xs, ∀ old, old? x = some old → old? y = some old → key x = key y)
    (hcases : ∀ x ∈ xs, (target x = official (key x) ∧ category.owns (target x) = false) ∨
      ∃ place n, target x = place ++ category.name n ∧
        NumberedBy a category entries (symbol x) (old? x) n) :
    Tagged category a.counters official (xs.map fun x => (key x, target x)) := by
  refine ⟨?keys, ?cases, ?inj⟩
  case keys =>
    rw [List.map_map]
    exact hkeys
  case cases =>
    intro k t he
    obtain ⟨x, hx, heq⟩ := List.mem_map.1 he
    cases heq
    rcases hcases x hx with hkept | ⟨place, n, htarget, hn⟩
    · exact .inl hkept
    · exact .inr ⟨place, n, htarget, h.lt_of_numberedBy ha hn⟩
  case inj =>
    have hnumber : ∀ k place n,
        (k, place ++ category.name n) ∈ xs.map (fun x => (key x, target x)) →
        ∃ x ∈ xs, key x = k ∧ NumberedBy a category entries (symbol x) (old? x) n := by
      intro k place n he
      obtain ⟨x, hx, heq⟩ := List.mem_map.1 he
      obtain ⟨hk, ht⟩ := Prod.mk.inj heq
      refine ⟨x, hx, hk, ?_⟩
      rcases hcases x hx with ⟨_, hno⟩ | ⟨place', n', htarget, hn⟩
      · rw [ht, Category.owns_append place (Category.owns_name category n)] at hno
        cases hno
      · rwa [← Category.number_eq (htarget.symm.trans ht)]
    intro k k' place place' n he he'
    obtain ⟨x, hx, rfl, hn⟩ := hnumber k place n he
    obtain ⟨y, hy, rfl, hn'⟩ := hnumber k' place' n he'
    rcases h.eq_of_numberedBy ha hn hn' with hsame | ⟨old, hx', hy'⟩
    · rw [hsymbol x y hsame]
    · exact hold x hx y hy old hx' hy'

end Tagged

end StableNames
