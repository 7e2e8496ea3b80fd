-- Brackets in patterns that go on with a parenthesis. Brackets that are
-- open at the end of a pattern stay open: nothing in `)$` closes them.
import Mathlib.Tactic.ByContra
import StableNames.Proofs.Pattern.Closing

namespace StableNames.Pattern

section Brackets

variable {text text' : List Char} (table : CharTable) (fl : Flags)

/-! ## Items -/

/-- One atom in brackets. -/
theorem setAtom?_follows (h : GoesOn text text') :
    Follows (PastEscape fl) (text.length - 1) (fl.setAtom? table text)
      (fl.setAtom? table text') := by
  unfold Flags.setAtom?
  split
  · rcases GoesOn.nil_iff.1 h with rfl | rfl
    · exact .past (Or.inl ⟨rfl, rfl⟩)
    · exact .refused
  · obtain ⟨rest', rfl, hon⟩ := GoesOn.cons_iff.1 h
    exact escape?_follows table fl hon
  · next hslash =>
    obtain ⟨rest', rfl, hon⟩ := GoesOn.cons_iff.1 h
    simp only
    exact .read hon (Nat.le_refl _)

/-- What an item may be where brackets end with it: nothing is left that could close them. -/
def PastItem (_ : CharSet) (rest' : List Char) : Prop := rest' = closing ∨ rest' = ['$']

/-- Whether two atoms make a range does not depend on what follows them. -/
theorem exists_range (a b : Atom) : ∃ s? : Option CharSet, ∀ rest : List Char, (do
    let lo ← fl.literal? a
    let hi ← fl.literal? b
    guard (lo ≤ hi)
    return (CharSet.range lo.toNat hi.toNat, rest)) = s?.map (·, rest) := by
  rcases fl.literal? a with _ | lo
  · exact ⟨none, fun _ => rfl⟩
  rcases fl.literal? b with _ | hi
  · exact ⟨none, fun _ => rfl⟩
  by_cases horder : lo ≤ hi
  · exact ⟨some (.range lo.toNat hi.toNat), fun _ => by simp [guard, horder]⟩
  · exact ⟨none, fun _ => by simp [guard, horder]⟩

theorem setRange?_follows (h : GoesOn text text') :
    Follows PastItem (text.length - 1) (fl.setRange? table text) (fl.setRange? table text') := by
  unfold Flags.setRange?
  refine (setAtom?_follows table fl h).bind ?_ ?_
  · intro a rest rest' hon hle
    have hskip := hon.skip fl
    have hlength := Nat.le_trans (fl.skip_length_le rest) hle
    simp only
    generalize fl.skip rest = s at *
    generalize fl.skip rest' = s' at *
    rcases s with _ | ⟨c, more⟩
    · rcases GoesOn.nil_iff.1 hskip with rfl | rfl
      · show Follows _ _ none ((fl.atomSet? a).bind fun s => some (s, closing))
        rcases fl.atomSet? a with _ | s
        · exact .refused
        · exact .past (Or.inl rfl)
      · exact .refused
    obtain ⟨more', rfl, hmore⟩ := GoesOn.cons_iff.1 hskip
    by_cases hhyphen : c = '-'
    · subst hhyphen
      have hnext := hmore.skip fl
      have hmoreLength := fl.skip_length_le more
      have hnextLength : (fl.skip more).length - 1 ≤ text.length - 1 := by
        rw [List.length_cons] at hlength
        omega
      simp only
      generalize fl.skip more = t at *
      generalize fl.skip more' = t' at *
      rcases t with _ | ⟨d, more₁⟩
      · rcases GoesOn.nil_iff.1 hnext with rfl | rfl
        · obtain ⟨s?, hs⟩ := exists_range fl a (.char ')')
          have hpast : Follows PastItem (text.length - 1) none (s?.map (·, ['$'])) :=
            .looked_up_past _ fun _ => Or.inr rfl
          rw [← hs] at hpast
          exact hpast
        · exact .refused
      obtain ⟨more₁', rfl, hmore₁⟩ := GoesOn.cons_iff.1 hnext
      by_cases hend : d = ']' ∨ d = '-'
      · rcases hend with rfl | rfl
        · simp only
          rcases fl.atomSet? a with _ | s
          · exact .refused
          · exact .read hskip hlength
        · simp only
          rcases fl.atomSet? a with _ | s
          · exact .refused
          · exact .read hskip hlength
      · obtain ⟨hbracket, hhyphen⟩ := not_or.1 hend
        simp only [List.cons.injEq, hbracket, hhyphen, false_and, imp_false, not_false_eq_true,
          implies_true]
        refine ((setAtom?_follows table fl hnext).mono hnextLength).bind ?_ ?_
        · intro b rest rest' hon hle
          obtain ⟨s?, hs⟩ := exists_range fl a b
          simp only [hs]
          exact .looked_up _ hon hle
        · rintro b rest' (⟨rfl, rfl⟩ | ⟨⟨l, rfl⟩, -⟩)
          · obtain ⟨s?, hs⟩ := exists_range fl a (.char ')')
            simp only [hs]
            exact .looked_up_past _ fun _ => Or.inr rfl
          · rcases fl.literal? a with _ | lo <;> exact .refused
    · simp only [List.cons.injEq, hhyphen, false_and, imp_false, not_false_eq_true, implies_true]
      rcases fl.atomSet? a with _ | s
      · exact .refused
      · exact .read hskip hlength
  · rintro a rest' (⟨rfl, rfl⟩ | ⟨⟨l, rfl⟩, more, rfl, _⟩)
    · simp only [fl.skip_dollar]
      rcases fl.atomSet? (.char ')') with _ | s
      · exact .refused
      · exact .past (Or.inr rfl)
    · simp only [fl.skip_brace]
      exact .refused

/-- A set with a name, from its name on. -/
def nameToSet? (negated : Bool) (text : List Char) : Option (CharSet × List Char) :=
  match text.dropWhile (· ≠ ':') with
  | ':' :: ']' :: more =>
    (CharSet.ofAsciiName? (String.ofList (text.takeWhile (· ≠ ':')))).map fun s =>
      (fl.foldAndNegate table negated s, more)
  | _ => none

theorem namedSet?_caret (more : List Char) :
    fl.namedSet? table ('[' :: ':' :: '^' :: more) = nameToSet? table fl true more := rfl

theorem namedSet?_of_no_caret {rest : List Char} (h : ∀ more, rest ≠ '^' :: more) :
    fl.namedSet? table ('[' :: ':' :: rest) = nameToSet? table fl false rest := by
  unfold Flags.namedSet?
  simp only
  rfl

theorem nameToSet?_follows (h : GoesOn text text') (negated : Bool) :
    Follows Never text.length (nameToSet? table fl negated text)
      (nameToSet? table fl negated text') := by
  unfold nameToSet?
  rcases h.search (by decide : ':' ∉ closing) with ⟨hnone, hnone'⟩ |
    ⟨rest, rest', hrest, hrest', hon, hbefore, hlt⟩
  · rw [hnone, hnone']
    exact .refused
  rw [hrest, hrest', hbefore]
  rcases rest with _ | ⟨d, more⟩
  · rcases GoesOn.nil_iff.1 hon with rfl | rfl <;> exact .refused
  obtain ⟨more', rfl, hmore⟩ := GoesOn.cons_iff.1 hon
  by_cases hd : d = ']'
  · subst hd
    exact .looked_up _ hmore (Nat.le_of_lt (Nat.lt_of_succ_lt hlt))
  · simp only [List.cons.injEq, true_and, hd, false_and, imp_false, not_false_eq_true,
      implies_true]
    exact .refused

theorem namedSet?_follows (h : GoesOn text text') :
    Follows Never (text.length - 1) (fl.namedSet? table text) (fl.namedSet? table text') := by
  by_cases hname : ∃ rest, text = '[' :: ':' :: rest
  · obtain ⟨rest, rfl⟩ := hname
    obtain ⟨rest₁', rfl, hrest₁⟩ := GoesOn.cons_iff.1 h
    obtain ⟨rest', rfl, hon⟩ := GoesOn.cons_iff.1 hrest₁
    have hlength : rest.length ≤ ('[' :: ':' :: rest).length - 1 := Nat.le_succ _
    by_cases hcaret : ∃ more, rest = '^' :: more
    · obtain ⟨more, rfl⟩ := hcaret
      obtain ⟨more', rfl, hmore⟩ := GoesOn.cons_iff.1 hon
      rw [namedSet?_caret, namedSet?_caret]
      exact (nameToSet?_follows table fl hmore true).mono (Nat.le_of_succ_le hlength)
    · rw [not_exists] at hcaret
      have hcaret' : ∀ more, rest' ≠ '^' :: more := by
        rintro more rfl
        obtain ⟨_, hrest, _⟩ := hon.of_cons (by decide)
        exact hcaret _ hrest
      rw [namedSet?_of_no_caret table fl hcaret, namedSet?_of_no_caret table fl hcaret']
      exact (nameToSet?_follows table fl hon false).mono hlength
  · rw [not_exists] at hname
    have hname' : ∀ rest, text' ≠ '[' :: ':' :: rest := by
      rintro rest rfl
      obtain ⟨_, rfl, hon⟩ := h.of_cons (by decide)
      obtain ⟨rest, rfl, _⟩ := hon.of_cons (by decide)
      exact hname _ rfl
    have hnone : ∀ {t : List Char}, (∀ rest, t ≠ '[' :: ':' :: rest) →
        fl.namedSet? table t = none := by
      intro t ht
      unfold Flags.namedSet?
      split
      · exact absurd rfl (ht _)
      · rfl
    rw [hnone hname, hnone hname']
    exact .refused

theorem leadingHyphens_alike (h : GoesOn text text') (is : Items) {n m : Nat}
    (hn : text.length ≤ n) (hm : text'.length ≤ m) :
    Alike text.length (fl.leadingHyphens is n text) (fl.leadingHyphens is m text') := by
  induction n generalizing text text' is m with
  | zero =>
    obtain rfl := List.eq_nil_of_length_eq_zero (Nat.le_zero.1 hn)
    rcases GoesOn.nil_iff.1 h with rfl | rfl <;> cases m <;> exact ⟨rfl, h, Nat.le_refl _⟩
  | succ n ih =>
    cases text with
    | nil => rcases GoesOn.nil_iff.1 h with rfl | rfl <;> cases m <;> exact ⟨rfl, h, Nat.le_refl _⟩
    | cons c rest =>
      obtain ⟨rest', rfl, hon⟩ := GoesOn.cons_iff.1 h
      have hrest := fl.skip_length_le rest
      have hrest' := fl.skip_length_le rest'
      rw [List.length_cons] at hn hm
      obtain ⟨m, rfl⟩ := Nat.exists_eq_succ_of_ne_zero (by omega : m ≠ 0)
      by_cases hc : c = '-'
      · subst hc
        have hmore := ih (m := m) (hon.skip fl) (is.add (.single '-') 0) (by omega) (by omega)
        exact ⟨hmore.same, hmore.goesOn, Nat.le_trans hmore.length_le (Nat.le_succ_of_le hrest)⟩
      · have hstop : ∀ k rest, fl.leadingHyphens is k (c :: rest) = (is, c :: rest) := by
          intro k rest
          cases k with
          | zero => rfl
          | succ k => simp [Flags.leadingHyphens, hc]
        rw [hstop, hstop]
        exact ⟨rfl, h, Nat.le_refl _⟩

/-- What stands at the start of brackets after their caret. -/
def afterCaret (negated : Bool) (text : List Char) : Bool × Items × List Char :=
  let (is, text) := fl.leadingHyphens {} text.length text
  match text with
  | ']' :: rest =>
    if is.count = 0 then (negated, is.add (.single ']') 0, fl.skip rest) else (negated, is, text)
  | _ => (negated, is, text)

theorem openBracket_eq (text : List Char) : fl.openBracket text =
    if (fl.skip text).head? = some '^' then afterCaret fl true (fl.skip (fl.skip text).tail)
    else afterCaret fl false (fl.skip text) := by
  unfold Flags.openBracket
  generalize fl.skip text = s
  by_cases hcaret : s.head? = some '^'
  · obtain ⟨rest, rfl⟩ := List.head?_eq_some_iff.1 hcaret
    rfl
  · rw [if_neg hcaret]
    split
    next heq =>
    split at heq
    · exact absurd rfl hcaret
    · cases heq
      rfl

/-- Brackets start alike, and are negated or not whatever follows the caret. -/
theorem afterCaret_alike (h : GoesOn text text') (negated : Bool) :
    (afterCaret fl negated text).1 = negated ∧ (afterCaret fl negated text').1 = negated ∧
      Alike text.length (afterCaret fl negated text).2 (afterCaret fl negated text').2 := by
  have hitems := leadingHyphens_alike fl h {} (Nat.le_refl _) (Nat.le_refl _)
  unfold afterCaret
  generalize fl.leadingHyphens {} text.length text = a at *
  generalize fl.leadingHyphens {} text'.length text' = b at *
  obtain ⟨is, s⟩ := a
  obtain ⟨is', s'⟩ := b
  obtain ⟨rfl, hs, hle⟩ := hitems
  simp only at hs hle ⊢
  split
  · next rest =>
    obtain ⟨rest', rfl, hon⟩ := GoesOn.cons_iff.1 hs
    simp only
    split_ifs
    · exact ⟨rfl, rfl, rfl, hon.skip fl,
        Nat.le_trans (fl.skip_length_le rest) (Nat.le_of_succ_le hle)⟩
    · exact ⟨rfl, rfl, rfl, hs, hle⟩
  · next hclose =>
    split
    · obtain ⟨_, rfl, _⟩ := hs.of_cons (by decide)
      exact absurd rfl (hclose _)
    · exact ⟨rfl, rfl, rfl, hs, hle⟩

theorem openBracket_follows (h : GoesOn text text') :
    (fl.openBracket text).1 = (fl.openBracket text').1 ∧
      Alike text.length (fl.openBracket text).2 (fl.openBracket text').2 := by
  have hskip := h.skip fl
  have hlength := fl.skip_length_le text
  rw [openBracket_eq, openBracket_eq]
  simp only [hskip.head?_iff (by decide : '^' ≠ ')')]
  split_ifs with hcaret
  · have htail : (fl.skip (fl.skip text).tail).length ≤ (fl.skip text).length :=
      Nat.le_trans (fl.skip_length_le _) (by simp)
    obtain ⟨hnegated, hnegated', hitems⟩ :=
      afterCaret_alike fl ((hskip.tail hcaret).skip fl) true
    exact ⟨hnegated.trans hnegated'.symm, hitems.same, hitems.goesOn,
      Nat.le_trans hitems.length_le (Nat.le_trans htail hlength)⟩
  · obtain ⟨hnegated, hnegated', hitems⟩ := afterCaret_alike fl hskip false
    exact ⟨hnegated.trans hnegated'.symm, hitems.same, hitems.goesOn,
      Nat.le_trans hitems.length_le hlength⟩

/-- A text in brackets that starts with an item. -/
structure StartsItem (s : List Char) : Prop where
  ne_nil : s ≠ []
  ne_open : ∀ rest, s ≠ '[' :: rest
  ne_close : ∀ rest, s ≠ ']' :: rest
  ne_inter : ∀ rest, s ≠ '&' :: '&' :: rest
  ne_diff : ∀ rest, s ≠ '-' :: '-' :: rest
  ne_symmDiff : ∀ rest, s ≠ '~' :: '~' :: rest

theorem startsItem_or (s : List Char) : s = [] ∨ (∃ rest, s = '[' :: rest) ∨
    (∃ rest, s = ']' :: rest) ∨ (∃ rest, s = '&' :: '&' :: rest) ∨
    (∃ rest, s = '-' :: '-' :: rest) ∨ (∃ rest, s = '~' :: '~' :: rest) ∨ StartsItem s := by
  by_contra h
  simp only [not_or, not_exists] at h
  obtain ⟨hnil, hopen, hclose, hinter, hdiff, hsymm, hitem⟩ := h
  exact hitem ⟨hnil, hopen, hclose, hinter, hdiff, hsymm⟩

theorem brackets?_item (h : StartsItem (fl.skip text)) (stack : List SetFrame) (is : Items)
    (n : Nat) : fl.brackets? table stack is (n + 1) text =
      (fl.setRange? table (fl.skip text)).bind fun (x, rest) =>
        fl.brackets? table stack (is.add x 0) n rest := by
  obtain ⟨hnil, hopen, hclose, hinter, hdiff, hsymm⟩ := h
  rw [Flags.brackets?]
  generalize fl.skip text = s at *
  split
  · exact absurd rfl hnil
  · exact absurd rfl (hopen _)
  · exact absurd rfl (hclose _)
  · exact absurd rfl (hinter _)
  · exact absurd rfl (hdiff _)
  · exact absurd rfl (hsymm _)
  · rcases fl.setRange? table s with _ | ⟨x, rest⟩ <;> rfl

theorem StartsItem.goesOn (hs : StartsItem text) (h : GoesOn text text') : StartsItem text' := by
  obtain ⟨hnil, hopen, hclose, hinter, hdiff, hsymm⟩ := hs
  obtain ⟨c, rest, rfl⟩ := List.exists_cons_of_ne_nil hnil
  obtain ⟨rest', rfl, hon⟩ := GoesOn.cons_iff.1 h
  have htwo : ∀ d, d ≠ ')' → (∀ more, c :: rest ≠ d :: d :: more) →
      ∀ more, c :: rest' ≠ d :: d :: more := by
    rintro d hd hne more heq
    cases heq
    obtain ⟨_, rfl, _⟩ := hon.of_cons hd
    exact hne _ rfl
  refine ⟨List.cons_ne_nil _ _, ?_, ?_, htwo _ (by decide) hinter, htwo _ (by decide) hdiff,
    htwo _ (by decide) hsymm⟩
  · rintro _ ⟨⟩
    exact hopen _ rfl
  · rintro _ ⟨⟩
    exact hclose _ rfl

theorem startsItem_closing : StartsItem closing := by
  constructor <;> simp [closing]

theorem startsItem_dollar : StartsItem ['$'] := by
  constructor <;> simp

theorem brackets?_dollar (stack : List SetFrame) (is : Items) (n : Nat) :
    fl.brackets? table stack is n ['$'] = none := by
  have hrange : fl.setRange? table ['$'] = none := by simp [Flags.setRange?, Flags.setAtom?]
  cases n with
  | zero => rfl
  | succ n =>
    rw [brackets?_item table fl (by rw [fl.skip_dollar]; exact startsItem_dollar), fl.skip_dollar,
      hrange]
    rfl

/-- The closing does not close brackets. -/
theorem brackets?_closing (h : fl.skip text = closing) (stack : List SetFrame) (is : Items)
    (n : Nat) : fl.brackets? table stack is n text = none := by
  have hrange : fl.setRange? table closing = some (.single ')', ['$']) := by
    simp [Flags.setRange?, Flags.setAtom?, Flags.atomSet?, Flags.literal?, closing]
  cases n with
  | zero => rfl
  | succ n =>
    rw [brackets?_item table fl (by rw [h]; exact startsItem_closing), h, hrange]
    exact brackets?_dollar table fl _ _ _

theorem brackets?_follows (h : GoesOn text text') (stack : List SetFrame) (is : Items) {n m : Nat}
    (hn : text.length < n) (hm : text'.length < m) :
    Follows Never text.length (fl.brackets? table stack is n text)
      (fl.brackets? table stack is m text') := by
  induction n generalizing text text' stack is m with
  | zero => omega
  | succ n ih =>
    obtain ⟨m, rfl⟩ := Nat.exists_eq_succ_of_ne_zero (by omega : m ≠ 0)
    have hskip := h.skip fl
    have hlength := fl.skip_length_le text
    have hlength' := fl.skip_length_le text'
    -- What is left is shorter than the text, since at least one sign was read.
    have hmore : ∀ {rest rest' : List Char} stack is, GoesOn rest rest' →
        rest.length < (fl.skip text).length → rest'.length < (fl.skip text').length →
        Follows Never text.length (fl.brackets? table stack is n rest)
          (fl.brackets? table stack is m rest') :=
      fun stack is hon hrest hrest' =>
        (ih hon stack is (by omega) (by omega)).mono (by omega)
    have hoperator : ∀ {d : Char} {rest : List Char}, fl.skip text = d :: d :: rest →
        ∃ rest', fl.skip text' = d :: d :: rest' ∧ GoesOn rest rest' ∧
          rest.length < (fl.skip text).length ∧ rest'.length < (fl.skip text').length := by
      intro d rest hs
      rw [hs] at hskip ⊢
      obtain ⟨rest₁', hs', hon₁⟩ := GoesOn.cons_iff.1 hskip
      obtain ⟨rest', rfl, hon⟩ := GoesOn.cons_iff.1 hon₁
      exact ⟨rest', hs', hon, by simp +arith, by simp +arith [hs']⟩
    rcases startsItem_or (fl.skip text) with hs | ⟨rest, hs⟩ | ⟨rest, hs⟩ | ⟨rest, hs⟩ |
      ⟨rest, hs⟩ | ⟨rest, hs⟩ | hitem
    · rw [hs] at hskip
      have hnone : fl.brackets? table stack is (n + 1) text = none := by rw [Flags.brackets?, hs]
      rw [hnone]
      rcases GoesOn.nil_iff.1 hskip with hs' | hs'
      · rw [brackets?_closing table fl hs']
        exact .refused
      · rw [Flags.brackets?, hs']
        exact .refused
    · rw [hs] at hskip
      obtain ⟨rest', hs', hon⟩ := GoesOn.cons_iff.1 hskip
      have hnamed := namedSet?_follows table fl (hs' ▸ hskip)
      have hself := namedSet?_follows table fl (GoesOn.refl ('[' :: rest'))
      rw [Flags.brackets?, Flags.brackets?, hs, hs']
      simp only
      generalize fl.namedSet? table ('[' :: rest) = a at *
      generalize fl.namedSet? table ('[' :: rest') = b at *
      cases hnamed with
      | refused =>
        obtain ⟨hnegated, hitems⟩ := openBracket_follows fl hon
        have hle' := (openBracket_follows fl (GoesOn.refl rest')).2.length_le
        simp only
        rw [hnegated, hitems.same]
        exact hmore _ _ hitems.goesOn (by rw [hs]; exact Nat.lt_succ_of_le hitems.length_le)
          (by rw [hs']; exact Nat.lt_succ_of_le hle')
      | read hon₁ hle =>
        have hle' := hself.length_le
        exact hmore _ _ hon₁ (by rw [hs]; exact Nat.lt_succ_of_le hle)
          (by rw [hs']; exact Nat.lt_succ_of_le hle')
      | past h => exact h.elim
    · rw [hs] at hskip
      obtain ⟨rest', hs', hon⟩ := GoesOn.cons_iff.1 hskip
      rw [Flags.brackets?, Flags.brackets?, hs, hs']
      simp only
      generalize fl.applyOperator table is.node stack = a
      obtain ⟨whole, waiting⟩ := a
      simp only
      split
      · exact .read hon (by rw [hs, List.length_cons] at hlength; omega)
      · exact hmore _ _ hon (by simp [hs]) (by simp [hs'])
      · exact .refused
    · obtain ⟨rest', hs', hon, hrest, hrest'⟩ := hoperator hs
      rw [Flags.brackets?, Flags.brackets?, hs, hs']
      exact hmore _ _ hon hrest hrest'
    · obtain ⟨rest', hs', hon, hrest, hrest'⟩ := hoperator hs
      rw [Flags.brackets?, Flags.brackets?, hs, hs']
      exact hmore _ _ hon hrest hrest'
    · obtain ⟨rest', hs', hon, hrest, hrest'⟩ := hoperator hs
      rw [Flags.brackets?, Flags.brackets?, hs, hs']
      exact hmore _ _ hon hrest hrest'
    · have hrange := setRange?_follows table fl hskip
      have hself := setRange?_follows table fl (GoesOn.refl (fl.skip text'))
      have hpositive := List.length_pos_iff.2 hitem.ne_nil
      have hpositive' := List.length_pos_iff.2 (hitem.goesOn hskip).ne_nil
      rw [brackets?_item table fl hitem, brackets?_item table fl (hitem.goesOn hskip)]
      generalize fl.setRange? table (fl.skip text) = a at *
      generalize fl.setRange? table (fl.skip text') = b at *
      cases hrange with
      | refused => exact .refused
      | read hon hle =>
        have hle' := hself.length_le
        exact hmore _ _ hon (by omega) (by omega)
      | @past x rest' h =>
        have hnone : fl.brackets? table stack (is.add x 0) m rest' = none := by
          rcases h with rfl | rfl
          · exact brackets?_closing table fl fl.skip_closing _ _ _
          · exact brackets?_dollar table fl _ _ _
        show Follows _ _ none (fl.brackets? table stack (is.add x 0) m rest')
        rw [hnone]
        exact .refused

theorem bracketSet?_follows (h : GoesOn text text') :
    Follows Never text.length (fl.bracketSet? table text) (fl.bracketSet? table text') := by
  obtain ⟨hnegated, hitems⟩ := openBracket_follows fl h
  unfold Flags.bracketSet?
  generalize fl.openBracket text = a at *
  generalize fl.openBracket text' = b at *
  obtain ⟨negated, is, s⟩ := a
  obtain ⟨negated', is', s'⟩ := b
  obtain ⟨hsame, hs, hle⟩ := hitems
  simp only at hnegated hsame hs hle ⊢
  rw [hnegated, hsame]
  exact (brackets?_follows table fl hs _ _ (Nat.lt_succ_self _) (Nat.lt_succ_self _)).mono hle

end Brackets

end StableNames.Pattern
