-- The numbers that names carry. A number stands at the end of its name, so
-- it can be read off whatever the name is put behind. In a run no number
-- is given twice, and all numbers lie between the counters at the start
-- and the counters at the end.
import StableNames.Naming.Allocator
import StableNames.Proofs.Text.Reading

namespace StableNames

/-! ## The number at the end of a name -/

namespace Text

/-- The digits at the end of a text. -/
def lastDigits (text : List Char) : List Char := (text.reverse.takeWhile (·.isDigit)).reverse

theorem lastDigits_toString (before : List Char) (n : Nat) :
    lastDigits (before ++ '_' :: (toString n).toList) = (toString n).toList := by
  have hdigits : ∀ c ∈ (toString n).toList.reverse, c.isDigit = true := by
    intro c hc
    exact isDigit_of_mem_toString (List.mem_reverse.1 hc)
  unfold lastDigits
  rw [List.reverse_append, List.reverse_cons, List.append_assoc, List.singleton_append,
    List.takeWhile_append_of_pos hdigits, List.takeWhile_cons_of_neg (by decide),
    List.append_nil, List.reverse_reverse]

theorem toString_inj {n n' : Nat} (h : (toString n).toList = (toString n').toList) : n = n' := by
  have hvalue := congrArg (fun digits => Nat.ofDigitChars 10 digits 0) h
  simpa [Nat.toString_eq_ofList_toDigits] using hvalue

end Text

namespace Category

theorem toList_name (category : Category) (n : Nat) :
    (category.name n).toList = category.word.toList ++ '_' :: (toString n).toList := by
  unfold name marker
  simp

/-- Names with different numbers differ, whatever they are put behind. -/
theorem number_eq {category category' : Category} {place place' : String} {n n' : Nat}
    (h : place ++ category.name n = place' ++ category'.name n') : n = n' := by
  have hdigits := congrArg (fun name => Text.lastDigits name.toList) h
  simp only [String.toList_append, toList_name, ← List.append_assoc] at hdigits
  rw [Text.lastDigits_toString, Text.lastDigits_toString] at hdigits
  exact Text.toString_inj hdigits

theorem name_inj {category category' : Category} {n n' : Nat}
    (h : category.name n = category'.name n') : category = category' ∧ n = n' := by
  obtain rfl : n = n' := by
    apply @number_eq category category' "" ""
    rw [h]
  refine ⟨?_, rfl⟩
  have hwords := congrArg String.toList h
  rw [toList_name, toList_name, List.append_left_inj] at hwords
  have := ofWord?_word category
  rw [String.toList_inj.1 hwords, ofWord?_word] at this
  exact (Option.some.inj this).symm

end Category

/-! ## Counters that grow -/

/-- The number that the next name of a category gets. -/
def Counters.next (cs : Counters) (c : Category) : Nat := (cs.get? c).getD Allocator.firstNumber

/-- No counter of the second list is behind that of the first, and all counters that were
set still are. -/
structure Counters.Grows (cs cs' : Counters) : Prop where
  next : ∀ c, cs.next c ≤ cs'.next c
  set : ∀ c, (cs.get? c).isSome → (cs'.get? c).isSome

namespace Counters.Grows

variable {cs cs' cs'' : Counters}

theorem refl (cs : Counters) : cs.Grows cs := ⟨fun _ => Nat.le_refl _, fun _ h => h⟩

theorem trans (h : cs.Grows cs') (h' : cs'.Grows cs'') : cs.Grows cs'' :=
  ⟨fun c => Nat.le_trans (h.next c) (h'.next c), fun c hc => h'.set c (h.set c hc)⟩

/-- A counter that is set is followed by one that is not behind it. -/
theorem get? (h : cs.Grows cs') {c : Category} {n : Nat} (hn : cs.get? c = some n) :
    ∃ n', cs'.get? c = some n' ∧ n ≤ n' := by
  obtain ⟨n', hn'⟩ := Option.isSome_iff_exists.1 (h.set c (by simp [hn]))
  refine ⟨n', hn', ?_⟩
  have := h.next c
  unfold Counters.next at this
  rwa [hn, hn'] at this

/-- A counter may be set to any number that is not behind it. -/
theorem set_of_le {c : Category} {n : Nat} (hn : cs.next c ≤ n) : cs.Grows (cs.set c n) := by
  constructor
  · intro c'
    unfold Counters.next
    rw [Counters.get?_set]
    split
    · rename_i h
      subst h
      exact hn
    · exact Nat.le_refl _
  · intro c' hc
    rw [Counters.get?_set]
    split
    · rfl
    · exact hc

theorem set_succ (cs : Counters) (c : Category) : cs.Grows (cs.set c (cs.next c + 1)) :=
  .set_of_le (Nat.le_succ _)

end Counters.Grows

/-! ## Numbers in a run -/

/-- All numbers are from the counters `first` on and behind the counters now, and no two
symbols have the same. -/
structure Allocator.Tidy (first : Counters) (a : Allocator) : Prop where
  grows : first.Grows a.counters
  first_le : ∀ s c n, a.numbers.get? s = some (c, n) → first.next c ≤ n
  lt_counter : ∀ s c n, a.numbers.get? s = some (c, n) → ∃ k, a.counters.get? c = some k ∧ n < k
  inj : ∀ s s' e, a.numbers.get? s = some e → a.numbers.get? s' = some e → s = s'

namespace Allocator

variable {first : Counters} {a a' : Allocator} {s s' : Symbol} {c : Category} {n : Nat}
  {name : String}

/-- Without numbers the allocator is tidy from its own counters on. -/
theorem tidy_of_numbers_eq (h : a.numbers = ∅) : a.Tidy a.counters := by
  have hnone : ∀ s e, a.numbers.get? s ≠ some e := by
    intro s e he
    rw [h, Assoc.get?_empty] at he
    cases he
  exact ⟨.refl _, fun s _ _ hs => absurd hs (hnone s _), fun s _ _ hs => absurd hs (hnone s _),
    fun s _ e hs => absurd hs (hnone s e)⟩

theorem Tidy.lt_next (h : a.Tidy first) (hs : a.numbers.get? s = some (c, n)) : n < a.next c := by
  obtain ⟨k, hk, hlt⟩ := h.lt_counter s c n hs
  unfold next
  rwa [hk]

theorem Tidy.insert (h : a.Tidy first) (s : Symbol) (c : Category) :
    Tidy first ⟨a.counters.set c (a.next c + 1), a.numbers.insert s (c, a.next c)⟩ := by
  have hgrows : a.counters.Grows (a.counters.set c (a.next c + 1)) := .set_succ a.counters c
  refine ⟨h.grows.trans hgrows, ?first_le, ?lt_counter, ?inj⟩
  case first_le =>
    intro s' c' n hn
    rw [Assoc.get?_insert] at hn
    split at hn
    · cases hn
      exact h.grows.next c
    · exact h.first_le s' c' n hn
  case lt_counter =>
    intro s' c' n hn
    rw [Assoc.get?_insert] at hn
    split at hn
    · cases hn
      exact ⟨_, by rw [Counters.get?_set, if_pos rfl], Nat.lt_succ_self _⟩
    · obtain ⟨k, hk, hlt⟩ := h.lt_counter s' c' n hn
      obtain ⟨k', hk', hle⟩ := hgrows.get? hk
      exact ⟨k', hk', Nat.lt_of_lt_of_le hlt hle⟩
  case inj =>
    -- the new number is the counter, and all others are behind it
    have hnew : ∀ s', a.numbers.get? s' ≠ some (c, a.next c) :=
      fun s' hs' => Nat.lt_irrefl _ (h.lt_next hs')
    intro s₁ s₂ e h₁ h₂
    rw [Assoc.get?_insert] at h₁ h₂
    split at h₁ <;> split at h₂
    · exact (‹s = s₁›).symm.trans ‹s = s₂›
    · cases h₁
      exact absurd h₂ (hnew s₂)
    · cases h₂
      exact absurd h₁ (hnew s₁)
    · exact h.inj s₁ s₂ e h₁ h₂

theorem Tidy.allocate (h : a.Tidy first) (ha : a.allocate s c = .ok (name, a')) :
    a'.Tidy first := by
  unfold Allocator.allocate at ha
  split at ha
  · split at ha
    · cases ha
      exact h
    · cases ha
  · cases ha
    exact h.insert s c

/-- The numbers of a run come before those of a run that starts with its counters. -/
theorem Tidy.name_ne {first' : Counters} (h : a.Tidy first) (h' : a'.Tidy first')
    (hgrows : a.counters.Grows first') {c' : Category} {n' : Nat}
    (hs : a.numbers.get? s = some (c, n)) (hs' : a'.numbers.get? s' = some (c', n')) :
    c.name n ≠ c'.name n' := by
  intro hname
  obtain ⟨rfl, rfl⟩ := Category.name_inj hname
  have hlt : n < a.counters.next c := h.lt_next hs
  have hle := Nat.le_trans (hgrows.next c) (h'.first_le s' c n hs')
  exact absurd hlt (Nat.not_lt.2 hle)

end Allocator

end StableNames
