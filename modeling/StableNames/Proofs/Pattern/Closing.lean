-- Patterns that go on with a parenthesis. A reader that has read a part of
-- a pattern reads the same part where `)$` follows the pattern: what is
-- left goes on with the two signs, unless a remark has swallowed them. A
-- reader that fails at the end of the pattern may read on, but then the
-- parenthesis is used up.
import Mathlib.Data.Option.Basic
import Mathlib.Tactic.SplitIfs
import StableNames.Pattern.Brackets

namespace StableNames.Pattern

/-- What follows a pattern that is put into a group: the end of the group and of the text. -/
def closing : List Char := [')', '$']

/-- The second text goes on with the closing, or a remark has swallowed it. -/
def GoesOn (text text' : List Char) : Prop := text' = text ++ closing ∨ text' = text

namespace GoesOn

variable {c : Char} {text text' rest : List Char}

theorem refl (text : List Char) : GoesOn text text := Or.inr rfl

theorem nil_iff : GoesOn [] text' ↔ text' = closing ∨ text' = [] := Iff.rfl

theorem cons_iff : GoesOn (c :: rest) text' ↔ ∃ rest', text' = c :: rest' ∧ GoesOn rest rest' := by
  constructor
  · rintro (rfl | rfl)
    · exact ⟨_, rfl, Or.inl rfl⟩
    · exact ⟨_, rfl, Or.inr rfl⟩
  · rintro ⟨_, rfl, rfl | rfl⟩
    · exact Or.inl rfl
    · exact Or.inr rfl

theorem skipSpace (h : GoesOn text text') (inRemark : Bool) :
    GoesOn (skipSpace inRemark text) (Pattern.skipSpace inRemark text') := by
  rcases h with rfl | rfl
  · induction text generalizing inRemark with
    | nil =>
      cases inRemark
      · exact Or.inl rfl
      · exact Or.inr rfl
    | cons c rest ih =>
      rw [List.cons_append, Pattern.skipSpace, Pattern.skipSpace]
      split_ifs
      · exact ih _
      · exact ih _
      · exact ih _
      · exact Or.inl rfl
  · exact Or.inr rfl

theorem skip (h : GoesOn text text') (fl : Flags) : GoesOn (fl.skip text) (fl.skip text') := by
  unfold Flags.skip
  split_ifs
  · exact h.skipSpace false
  · exact h

/-- A text that starts with another sign than the parenthesis goes on one that starts with it. -/
theorem of_cons (h : GoesOn text (c :: rest)) (hc : c ≠ ')') :
    ∃ rest₀, text = c :: rest₀ ∧ GoesOn rest₀ rest := by
  cases text with
  | nil =>
    rcases nil_iff.1 h with heq | heq
    · exact absurd (List.cons.inj heq).1 hc
    · cases heq
  | cons d rest₀ =>
    obtain ⟨rest', heq, hon⟩ := cons_iff.1 h
    cases heq
    exact ⟨rest₀, rfl, hon⟩

theorem head?_iff (h : GoesOn text text') (hc : c ≠ ')') :
    text'.head? = some c ↔ text.head? = some c := by
  cases text with
  | nil =>
    rcases nil_iff.1 h with rfl | rfl
    · simp [closing, Ne.symm hc]
    · rfl
  | cons d rest =>
    obtain ⟨rest', rfl, _⟩ := cons_iff.1 h
    rfl

theorem tail (h : GoesOn text text') (hc : text.head? = some c) :
    GoesOn text.tail text'.tail := by
  obtain ⟨rest, rfl⟩ := List.head?_eq_some_iff.1 hc
  obtain ⟨rest', rfl, hon⟩ := cons_iff.1 h
  exact hon

/-- A sign that is not one of the closing is found at the same place, or not at all. -/
theorem search (h : GoesOn text text') (hc : c ∉ closing) :
    (text.dropWhile (· ≠ c) = [] ∧ text'.dropWhile (· ≠ c) = []) ∨
      ∃ rest rest', text.dropWhile (· ≠ c) = c :: rest ∧ text'.dropWhile (· ≠ c) = c :: rest' ∧
        GoesOn rest rest' ∧ text.takeWhile (· ≠ c) = text'.takeWhile (· ≠ c) ∧
        rest.length < text.length := by
  induction text generalizing text' with
  | nil =>
    obtain ⟨hparenthesis, hdollar⟩ : ¬c = ')' ∧ ¬c = '$' := by simpa [closing] using hc
    rcases nil_iff.1 h with rfl | rfl
    · exact Or.inl ⟨rfl, by simp [closing, Ne.symm hparenthesis, Ne.symm hdollar]⟩
    · exact Or.inl ⟨rfl, rfl⟩
  | cons d rest ih =>
    obtain ⟨rest', rfl, hon⟩ := cons_iff.1 h
    by_cases hd : d = c
    · subst hd
      exact Or.inr ⟨rest, rest', by simp, by simp, hon, by simp, Nat.lt_succ_self _⟩
    · have hpos : decide (d ≠ c) = true := decide_eq_true hd
      simp only [List.dropWhile_cons, List.takeWhile_cons, hpos, if_true]
      rcases ih hon with hnone | ⟨more, more', hmore, hmore', hon, hbefore, hlt⟩
      · exact Or.inl hnone
      · exact Or.inr ⟨more, more', hmore, hmore', hon, congrArg (d :: ·) hbefore,
          Nat.lt_succ_of_lt hlt⟩

end GoesOn

theorem skipSpace_length_le (inRemark : Bool) (text : List Char) :
    (skipSpace inRemark text).length ≤ text.length := by
  induction text generalizing inRemark with
  | nil => exact Nat.le_refl 0
  | cons c rest ih =>
    rw [skipSpace, List.length_cons]
    split_ifs
    · exact Nat.le_succ_of_le (ih _)
    · exact Nat.le_succ_of_le (ih _)
    · exact Nat.le_succ_of_le (ih _)
    · exact Nat.le_refl _

theorem Flags.skip_length_le (fl : Flags) (text : List Char) :
    (fl.skip text).length ≤ text.length := by
  unfold Flags.skip
  split_ifs
  · exact skipSpace_length_le false text
  · exact Nat.le_refl _

theorem Flags.skip_closing (fl : Flags) : fl.skip closing = closing := by
  unfold Flags.skip
  split_ifs <;> rfl

@[simp] theorem Flags.skip_dollar (fl : Flags) : fl.skip ['$'] = ['$'] := by
  unfold Flags.skip
  split_ifs <;> rfl

@[simp] theorem Flags.skip_nil (fl : Flags) : fl.skip [] = [] := by
  unfold Flags.skip
  split_ifs <;> rfl

theorem Flags.skip_brace (fl : Flags) (rest : List Char) :
    fl.skip ('\x7b' :: rest) = '\x7b' :: rest := by
  unfold Flags.skip
  split_ifs <;> rfl

/-! ## What readers answer -/

/-- The answers of a reader for a text alone and for a text that goes on. `bound` bounds what is
left of the text; `past` holds where the reader fails for the text alone only. -/
inductive Follows {α : Type} (past : α → List Char → Prop) (bound : Nat) :
    Option (α × List Char) → Option (α × List Char) → Prop
  | refused : Follows past bound none none
  | read {x : α} {rest rest' : List Char} (h : GoesOn rest rest') (hbound : rest.length ≤ bound) :
      Follows past bound (some (x, rest)) (some (x, rest'))
  | past {x : α} {rest' : List Char} (h : past x rest') : Follows past bound none (some (x, rest'))

/-- A reader that reads on never, for lack of a sign that closes what it has begun. -/
def Never {α : Type} (_ : α) (_ : List Char) : Prop := False

/-- The same for a reader that always answers. -/
structure Alike {α : Type} (bound : Nat) (a b : α × List Char) : Prop where
  same : a.1 = b.1
  goesOn : GoesOn a.2 b.2
  length_le : a.2.length ≤ bound

namespace Follows

variable {α β : Type} {past : α → List Char → Prop} {past' : β → List Char → Prop}
  {bound bound' : Nat} {a b : Option (α × List Char)}

theorem mono (h : Follows past bound a b) (hbound : bound ≤ bound') : Follows past bound' a b := by
  cases h with
  | refused => exact .refused
  | read h hle => exact .read h (Nat.le_trans hle hbound)
  | past h => exact .past h

theorem imp {past₁ : α → List Char → Prop} (h : Follows past bound a b)
    (himp : ∀ x rest', past x rest' → past₁ x rest') : Follows past₁ bound a b := by
  cases h with
  | refused => exact .refused
  | read h hle => exact .read h hle
  | past h => exact .past (himp _ _ h)

theorem of_never (h : Follows Never bound a b) : Follows past bound a b :=
  h.imp fun _ _ => False.elim

theorem length_le {x : α} {rest : List Char}
    (h : Follows past bound (some (x, rest)) (some (x, rest))) : rest.length ≤ bound := by
  cases h with
  | read _ hle => exact hle

/-- A reader that goes on after another one. -/
theorem bind {f : α × List Char → Option (β × List Char)} (h : Follows past bound a b)
    (hread : ∀ x rest rest', GoesOn rest rest' → rest.length ≤ bound →
      Follows past' bound' (f (x, rest)) (f (x, rest')))
    (hpast : ∀ x rest', past x rest' → Follows past' bound' none (f (x, rest'))) :
    Follows past' bound' (a.bind f) (b.bind f) := by
  cases h with
  | refused => exact .refused
  | read h hle => exact hread _ _ _ h hle
  | past h => exact hpast _ _ h

/-- What is found in a table does not depend on the text. -/
theorem looked_up {o : Option β} (f : β → α) {rest rest' : List Char} (h : GoesOn rest rest')
    (hbound : rest.length ≤ bound) :
    Follows past bound (o.map fun x => (f x, rest)) (o.map fun x => (f x, rest')) := by
  cases o with
  | none => exact .refused
  | some x => exact .read h hbound

theorem looked_up_past {o : Option β} (f : β → α) {rest' : List Char} (h : ∀ x, past x rest') :
    Follows past bound none (o.map fun x => (f x, rest')) := by
  cases o with
  | none => exact .refused
  | some x => exact .past (h _)

end Follows

/-! ## Code points by number -/

section Readers

variable {text text' : List Char} (table : CharTable) (fl : Flags)

theorem hexDigits?_follows (h : GoesOn text text') (value count : Nat) :
    Follows Never text.length (hexDigits? fl value count text)
      (hexDigits? fl value count text') := by
  induction count generalizing value text text' with
  | zero => exact .read h (Nat.le_refl _)
  | succ count ih =>
    cases text with
    | nil => rcases GoesOn.nil_iff.1 h with rfl | rfl <;> exact .refused
    | cons c rest =>
      obtain ⟨rest', rfl, hon⟩ := GoesOn.cons_iff.1 h
      rw [hexDigits?, hexDigits?]
      rcases Unicode.hexValue? c with _ | d
      · exact .refused
      · have hrest := Nat.le_succ_of_le (fl.skip_length_le rest)
        exact (ih (hon.skip fl) _).mono hrest

theorem hexBraces?_follows (h : GoesOn text text') (value? : Option Nat) {n m : Nat}
    (hn : text.length < n) (hm : text'.length < m) :
    Follows Never text.length (hexBraces? fl value? n text) (hexBraces? fl value? m text') := by
  induction n generalizing value? text text' m with
  | zero => omega
  | succ n ih =>
    obtain ⟨m, rfl⟩ := Nat.exists_eq_succ_of_ne_zero (by omega : m ≠ 0)
    cases text with
    | nil =>
      rcases GoesOn.nil_iff.1 h with rfl | rfl <;> exact .refused
    | cons c rest =>
      obtain ⟨rest', rfl, hon⟩ := GoesOn.cons_iff.1 h
      have hrest := fl.skip_length_le rest
      have hrest' := fl.skip_length_le rest'
      rw [List.length_cons] at hn hm
      rw [hexBraces?, hexBraces?]
      split_ifs
      · cases value? with
        | none => exact .refused
        | some value => exact .read (hon.skip fl) (Nat.le_succ_of_le hrest)
      · rcases Unicode.hexValue? c with _ | d
        · exact .refused
        · exact (ih (hon.skip fl) _ (by omega) (by omega)).mono (Nat.le_succ_of_le hrest)

theorem hexEscape?_follows (h : GoesOn text text') (letter : Char) :
    Follows Never text.length (hexEscape? fl letter text) (hexEscape? fl letter text') := by
  have hlength := fl.skip_length_le text
  have hskip := h.skip fl
  unfold hexEscape?
  generalize fl.skip text = s at *
  generalize fl.skip text' = s' at *
  generalize (if letter = 'x' then 2 else if letter = 'u' then 4 else 8) = count
  refine Follows.mono ?_ hlength
  split
  · next rest =>
    obtain ⟨rest', rfl, hon⟩ := GoesOn.cons_iff.1 hskip
    have hrest := fl.skip_length_le rest
    have hrest' := fl.skip_length_le rest'
    refine ((hexBraces?_follows fl (hon.skip fl) none (by omega) (by omega)).mono
      (Nat.le_succ_of_le hrest)).bind ?_ fun _ _ => False.elim
    intro n rest rest' hon hle
    show Follows _ _ ((charOf? n).bind fun c => some (Atom.char c, rest))
      ((charOf? n).bind fun c => some (Atom.char c, rest'))
    rcases charOf? n with _ | c
    · exact .refused
    · exact .read hon hle
  · next hs =>
    split
    · next rest' =>
      obtain ⟨rest, rfl, _⟩ := hskip.of_cons (by decide)
      exact absurd rfl (hs rest)
    · refine (hexDigits?_follows fl hskip _ _).bind ?_ fun _ _ => False.elim
      intro n rest rest' hon hle
      show Follows _ _ ((charOf? n).bind fun c => some (_, rest))
        ((charOf? n).bind fun c => some (_, rest'))
      rcases charOf? n with _ | c
      · exact .refused
      · exact .read hon hle

/-! ## Properties -/

theorem braceText?_closing (n : Nat) : braceText? fl n closing = none := by
  rcases n with _ | _ | _ | n <;> simp [braceText?, closing]

theorem braceText?_follows (h : GoesOn text text') {n m : Nat} (hn : text.length < n)
    (hm : text'.length < m) :
    Follows Never text.length (braceText? fl n text) (braceText? fl m text') := by
  induction n generalizing text text' m with
  | zero => omega
  | succ n ih =>
    obtain ⟨m, rfl⟩ := Nat.exists_eq_succ_of_ne_zero (by omega : m ≠ 0)
    cases text with
    | nil =>
      rcases GoesOn.nil_iff.1 h with rfl | rfl
      · rw [braceText?_closing]
        exact .refused
      · exact .refused
    | cons c rest =>
      obtain ⟨rest', rfl, hon⟩ := GoesOn.cons_iff.1 h
      have hrest := fl.skip_length_le rest
      have hrest' := fl.skip_length_le rest'
      rw [List.length_cons] at hn hm
      rw [braceText?, braceText?]
      split_ifs
      · exact .read hon (Nat.le_succ _)
      · have hname := ih (m := m) (hon.skip fl) (by omega) (by omega)
        rw [Option.map_eq_bind, Option.map_eq_bind]
        refine hname.bind ?_ fun _ _ => False.elim
        intro name rest₁ rest₁' hon hle
        exact .read hon (Nat.le_trans hle (Nat.le_succ_of_le hrest))

theorem propertyEscape?_follows (h : GoesOn text text') (denied : Bool) :
    Follows Never text.length (propertyEscape? table fl denied text)
      (propertyEscape? table fl denied text') := by
  have hlength := fl.skip_length_le text
  have hskip := h.skip fl
  unfold propertyEscape?
  generalize fl.skip text = s at *
  generalize fl.skip text' = s' at *
  refine Follows.mono ?_ hlength
  rcases fl.unicode with _ | _
  · exact .refused
  simp only [guard, if_true, Option.pure_def, Option.bind_eq_bind, Option.bind_some]
  split
  · next rest =>
    obtain ⟨rest', rfl, hon⟩ := GoesOn.cons_iff.1 hskip
    have hrest := fl.skip_length_le rest
    have hrest' := fl.skip_length_le rest'
    refine ((braceText?_follows fl (hon.skip fl) (by omega) (by omega)).mono
      (Nat.le_succ_of_le hrest)).bind ?_ fun _ _ => False.elim
    intro name rest rest' hon hle
    rcases propertyOf? table name with _ | ⟨p, deniedAgain⟩
    · exact .refused
    · exact .read hon hle
  · next rest =>
    obtain ⟨rest', rfl, hon⟩ := GoesOn.cons_iff.1 hskip
    exact .refused
  · next c rest hbrace hslash =>
    obtain ⟨rest', rfl, hon⟩ := GoesOn.cons_iff.1 hskip
    simp only
    have hrest := Nat.le_succ_of_le (fl.skip_length_le rest)
    rcases table.named? [c] with _ | p
    · exact .refused
    · exact .read (hon.skip fl) hrest
  · rcases GoesOn.nil_iff.1 hskip with rfl | rfl
    · show Follows _ _ none ((table.named? [')']).bind _)
      rw [table.named?_parenthesis]
      exact .refused
    · exact .refused

/-! ## Signs taken one by one -/

/-- A reader that takes signs one by one, as long as they pass a test. -/
theorem taken_alike {f : Nat → List Char → List Char × List Char} {p : Char → Bool}
    (hzero : ∀ text, f 0 text = ([], text)) (hnil : ∀ n, f n [] = ([], []))
    (hcons : ∀ n c rest, f (n + 1) (c :: rest) =
      if p c then (c :: (f n (fl.skip rest)).1, (f n (fl.skip rest)).2)
      else ([], c :: rest))
    (htest : p ')' = false) (h : GoesOn text text') {n m : Nat} (hn : text.length ≤ n)
    (hm : text'.length ≤ m) : Alike text.length (f n text) (f m text') := by
  have hclosing : ∀ m, f m closing = ([], closing) := by
    rintro (_ | m)
    · exact hzero _
    · exact (hcons m ')' ['$']).trans (if_neg (by simp [htest]))
  induction n generalizing text text' m with
  | zero =>
    obtain rfl := List.eq_nil_of_length_eq_zero (Nat.le_zero.1 hn)
    rw [hzero]
    rcases GoesOn.nil_iff.1 h with rfl | rfl
    · rw [hclosing]
      exact ⟨rfl, h, Nat.le_refl _⟩
    · rw [hnil]
      exact ⟨rfl, h, Nat.le_refl _⟩
  | succ n ih =>
    cases text with
    | nil =>
      rw [hnil]
      rcases GoesOn.nil_iff.1 h with rfl | rfl
      · rw [hclosing]
        exact ⟨rfl, h, Nat.le_refl _⟩
      · rw [hnil]
        exact ⟨rfl, h, Nat.le_refl _⟩
    | cons c rest =>
      obtain ⟨rest', rfl, hon⟩ := GoesOn.cons_iff.1 h
      have hrest := fl.skip_length_le rest
      have hrest' := fl.skip_length_le rest'
      rw [List.length_cons] at hn hm
      obtain ⟨m, rfl⟩ := Nat.exists_eq_succ_of_ne_zero (by omega : m ≠ 0)
      rw [hcons, hcons]
      split_ifs
      · have hmore := ih (m := m) (hon.skip fl) (by omega) (by omega)
        exact ⟨congrArg (c :: ·) hmore.same, hmore.goesOn,
          Nat.le_trans hmore.length_le (Nat.le_succ_of_le hrest)⟩
      · exact ⟨rfl, h, Nat.le_refl _⟩

/-! ## Boundaries of words -/

theorem boundaryName_alike (h : GoesOn text text') {n m : Nat} (hn : text.length ≤ n)
    (hm : text'.length ≤ m) :
    Alike text.length (boundaryName fl n text) (boundaryName fl m text') :=
  taken_alike fl (f := boundaryName fl) (p := fun c => c.isAlpha || c = '-')
    (fun _ => rfl) (fun n => by cases n <;> rfl) (fun _ _ _ => rfl) rfl h hn hm

/-- What a reader may read where a boundary is all that it has read: the braces after it hold
nothing but the closing. -/
def PastBoundary (a : Atom) (rest' : List Char) : Prop :=
  (∃ l, a = .look l) ∧ ∃ more, rest' = '\x7b' :: more ∧ fl.skip more = closing

theorem boundaryEscape?_follows (h : GoesOn text text') :
    Follows (PastBoundary fl) text.length (boundaryEscape? table fl text)
      (boundaryEscape? table fl text') := by
  unfold boundaryEscape?
  split
  · next rest =>
    obtain ⟨rest', rfl, hon⟩ := GoesOn.cons_iff.1 h
    have hskip := hon.skip fl
    have hlength := fl.skip_length_le rest
    simp only
    cases hs : fl.skip rest with
    | nil =>
      rw [hs] at hskip
      rcases GoesOn.nil_iff.1 hskip with hs' | hs'
      · rw [hs']
        exact .past ⟨⟨_, rfl⟩, rest', rfl, hs'⟩
      · rw [hs']
        exact .refused
    | cons c inner =>
      rw [hs] at hskip hlength
      obtain ⟨inner', hs', _⟩ := GoesOn.cons_iff.1 hskip
      rw [hs'] at hskip ⊢
      simp only
      split_ifs
      · have hname := boundaryName_alike (n := inner.length + 1) (m := inner'.length + 1) fl hskip
          (Nat.le_refl _) (Nat.le_refl _)
        generalize boundaryName fl (inner.length + 1) (c :: inner) = a at *
        generalize boundaryName fl (inner'.length + 1) (c :: inner') = b at *
        obtain ⟨name, after⟩ := a
        obtain ⟨name', after'⟩ := b
        obtain ⟨rfl, hafter, hle⟩ := hname
        simp only at hafter hle
        split
        · next heq =>
          cases heq
          obtain ⟨rest₁', rfl, hon₁⟩ := GoesOn.cons_iff.1 hafter
          rw [List.length_cons] at hle
          exact .looked_up Atom.look hon₁ (by rw [List.length_cons]; omega)
        · next hclose =>
          split
          · next heq =>
            cases heq
            obtain ⟨rest₁, rfl, _⟩ := hafter.of_cons (by decide)
            exact absurd rfl (hclose _ _)
          · exact .refused
      · exact .read h (Nat.le_refl _)
  · next hbrace =>
    split
    · next rest' =>
      obtain ⟨rest, rfl, _⟩ := h.of_cons (by decide)
      exact absurd rfl (hbrace rest)
    · exact .read h (Nat.le_refl _)

/-! ## All escapes -/

/-- What an escape may be where a pattern ends with a backslash, or with braces that hold
nothing. -/
def PastEscape (a : Atom) (rest' : List Char) : Prop :=
  a = .char ')' ∧ rest' = ['$'] ∨ PastBoundary fl a rest'

theorem escape?_follows (h : GoesOn text text') :
    Follows (PastEscape fl) text.length (escape? table fl text) (escape? table fl text') := by
  cases text with
  | nil =>
    rcases GoesOn.nil_iff.1 h with rfl | rfl
    · have hread : escape? table fl closing = some (.char ')', ['$']) := rfl
      rw [hread]
      exact .past (Or.inl ⟨rfl, rfl⟩)
    · exact .refused
  | cons c rest =>
    obtain ⟨rest', rfl, hon⟩ := GoesOn.cons_iff.1 h
    have hrest : rest.length ≤ (c :: rest).length := Nat.le_succ _
    unfold escape?
    simp only
    by_cases hnumber : (c = 'x' || c = 'u' || c = 'U') = true
    · rw [if_pos hnumber, if_pos hnumber]
      exact ((hexEscape?_follows fl hon c).mono hrest).of_never
    rw [if_neg hnumber, if_neg hnumber]
    by_cases hproperty : (c = 'p' || c = 'P') = true
    · rw [if_pos hproperty, if_pos hproperty]
      exact ((propertyEscape?_follows table fl hon _).mono hrest).of_never
    rw [if_neg hproperty, if_neg hproperty]
    rcases CharSet.ofLetter? table fl.unicode c.toLower with _ | s
    · simp only
      by_cases hplain : isPlainEscape c = true
      · rw [if_pos hplain, if_pos hplain]
        exact .read hon hrest
      rw [if_neg hplain, if_neg hplain]
      split
      · exact .read hon hrest
      · exact .read hon hrest
      · exact .read hon hrest
      · exact .read hon hrest
      · exact .read hon hrest
      · exact .read hon hrest
      · exact .read hon hrest
      · exact .read hon hrest
      · exact ((boundaryEscape?_follows table fl hon).mono hrest).imp fun _ _ => Or.inr
      · exact .read hon hrest
      · exact .read hon hrest
      · exact .read hon hrest
      · exact .refused
    · exact .read hon hrest

end Readers

end StableNames.Pattern
