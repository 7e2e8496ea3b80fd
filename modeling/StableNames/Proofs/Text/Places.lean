-- Where pieces stand in a text. The part after the last mark has no mark
-- in it, and a piece that occurs in a text occurs in every longer one.
import Mathlib.Data.List.TakeWhile
import StableNames.Category

namespace StableNames

namespace Text

variable {mark : Char} {text before : List Char}

/-! ## The last mark -/

theorem mark_not_mem_afterLast (mark : Char) (text : List Char) : mark ∉ afterLast mark text := by
  unfold afterLast
  intro h
  have hall := List.all_takeWhile (p := (· != mark)) (l := text.reverse)
  rw [List.all_eq_true] at hall
  have := hall mark (List.mem_reverse.1 h)
  simp at this

theorem mem_of_mem_afterLast {c : Char} (h : c ∈ afterLast mark text) : c ∈ text := by
  rw [← uptoLast_append_afterLast mark text]
  exact List.mem_append_right _ h

theorem mem_of_mem_uptoLast {c : Char} (h : c ∈ uptoLast mark text) : c ∈ text := by
  rw [← uptoLast_append_afterLast mark text]
  exact List.mem_append_left _ h

/-- What has no mark in it stays behind the last one, whatever it is put behind. -/
theorem afterLast_append (h : mark ∉ text) :
    afterLast mark (before ++ text) = afterLast mark before ++ text := by
  unfold afterLast
  rw [List.reverse_append, List.takeWhile_append_of_pos, List.reverse_append,
    List.reverse_reverse]
  intro c hc
  rw [bne_iff_ne]
  rintro rfl
  exact h (List.mem_reverse.1 hc)

/-- Without a mark the whole text stands after the last one. -/
theorem afterLast_eq_self (h : mark ∉ text) : afterLast mark text = text := by
  unfold afterLast
  rw [List.takeWhile_eq_self_iff.2, List.reverse_reverse]
  intro c hc
  rw [bne_iff_ne]
  rintro rfl
  exact h (List.mem_reverse.1 hc)

/-- What follows a mark and has none in it is what stands after the last one. -/
theorem afterLast_append_mark (h : mark ∉ text) :
    afterLast mark (before ++ mark :: text) = text := by
  unfold afterLast
  rw [List.reverse_append, List.reverse_cons, List.append_assoc, List.singleton_append,
    List.takeWhile_append_of_pos, List.takeWhile_cons_of_neg, List.append_nil,
    List.reverse_reverse]
  · simp
  · intro c hc
    rw [bne_iff_ne]
    rintro rfl
    exact h (List.mem_reverse.1 hc)

/-! ## Pieces -/

variable {piece rest : List Char}

theorem after?_eq_some : after? piece text = some rest ↔ text = piece ++ rest := by
  induction piece generalizing text with
  | nil => simp [after?, eq_comm]
  | cons p piece ih =>
    cases text with
    | nil => simp [after?]
    | cons c text =>
      rw [after?, List.cons_append, List.cons.injEq]
      split
      · rename_i h
        rw [ih, and_iff_right h.symm]
      · rename_i h
        simp [Ne.symm h]

theorem occursIn_iff : occursIn piece text = true ↔ piece <:+: text := by
  unfold occursIn
  induction text with
  | nil =>
    unfold splitFirst?
    split <;> simp_all
  | cons c text ih =>
    unfold splitFirst?
    rw [List.infix_cons_iff]
    rcases h : after? piece (c :: text) with _ | rest
    · rw [Option.isSome_map, ih, or_iff_right]
      rintro ⟨rest, hrest⟩
      rw [after?_eq_some.2 hrest.symm] at h
      cases h
    · rw [after?_eq_some] at h
      exact ⟨fun _ => .inl ⟨rest, h.symm⟩, fun _ => rfl⟩

end Text

/-! ## Markers -/

namespace Category

variable {category : Category} {name : String}

theorem owns_iff : category.owns name = true ↔ category.marker.toList <:+: name.toList :=
  Text.occursIn_iff

/-- A name of a category has its marker. -/
theorem owns_name (category : Category) (n : Nat) : category.owns (category.name n) = true := by
  rw [owns_iff]
  exact ⟨[], (toString n).toList, by simp [Category.name]⟩

theorem owns_append (before : String) (h : category.owns name = true) :
    category.owns (before ++ name) = true := by
  rw [owns_iff] at h ⊢
  rw [String.toList_append]
  exact h.trans (List.suffix_append _ _).isInfix

/-- A name with a marker is not empty. -/
theorem ne_empty_of_owns (h : category.owns name = true) : name ≠ "" := by
  rintro rfl
  revert h
  cases category <;> decide

end Category

end StableNames
