-- Steps of reading a pattern that goes on with a parenthesis: counts,
-- groups and all else that starts with one sign. The groups around do not
-- matter to a step, unless it closes one of them.
import Mathlib.Tactic.SplitIfs
import StableNames.Pattern.Parser
import StableNames.Proofs.Pattern.ClosingBrackets

namespace StableNames.Pattern

namespace Reading

/-! ## Counts -/

section Counts

variable {text text' : List Char} (fl : Flags)

theorem countDigits_alike (h : GoesOn text text') {n m : Nat} (hn : text.length ≤ n)
    (hm : text'.length ≤ m) :
    Alike text.length (countDigits fl n text) (countDigits fl m text') :=
  taken_alike fl (f := countDigits fl) (p := fun c => (Text.digit? c).isSome)
    (fun _ => rfl) (fun n => by cases n <;> rfl) (fun _ _ _ => rfl) rfl h hn hm

theorem dropBlanks_goesOn (h : GoesOn text text') :
    GoesOn (text.dropWhile Text.isBlank) (text'.dropWhile Text.isBlank) := by
  induction text generalizing text' with
  | nil => rcases GoesOn.nil_iff.1 h with rfl | rfl <;> exact h
  | cons c rest ih =>
    obtain ⟨rest', rfl, hon⟩ := GoesOn.cons_iff.1 h
    rw [List.dropWhile_cons, List.dropWhile_cons]
    split_ifs
    · exact ih hon
    · exact h

theorem count?_follows (h : GoesOn text text') :
    Follows Never text.length (count? fl text) (count? fl text') := by
  have hblanks := dropBlanks_goesOn h
  have hlength := (List.dropWhile_suffix Text.isBlank (l := text)).length_le
  have hlength' := (List.dropWhile_suffix Text.isBlank (l := text')).length_le
  have hdigits := countDigits_alike fl hblanks (Nat.le_succ_of_le hlength)
    (Nat.le_succ_of_le hlength')
  unfold count?
  generalize countDigits fl (text.length + 1) (text.dropWhile Text.isBlank) = a at *
  generalize countDigits fl (text'.length + 1) (text'.dropWhile Text.isBlank) = b at *
  obtain ⟨ds, rest⟩ := a
  obtain ⟨ds', rest'⟩ := b
  obtain ⟨rfl, hon, hle⟩ := hdigits
  simp only at hon hle ⊢
  have hrest := (dropBlanks_goesOn hon).skip fl
  have hrestLength : (fl.skip (rest.dropWhile Text.isBlank)).length ≤ text.length := by
    have hskip := fl.skip_length_le (rest.dropWhile Text.isBlank)
    have hdrop := (List.dropWhile_suffix Text.isBlank (l := rest)).length_le
    omega
  split_ifs
  · exact .read hrest hrestLength
  · rcases Text.readNumeral Text.wordLimit ds with _ | n
    · exact .refused
    · exact .read hrest hrestLength

/-- The closing holds no number. -/
theorem count?_closing : count? fl closing = some (none, closing) := by
  have hclosing : count? fl closing = some (none, fl.skip closing) := rfl
  rw [hclosing, fl.skip_closing]

theorem bounds?_closing (h : fl.skip text = closing) : bounds? fl text = none := by
  unfold bounds?
  rw [h, count?_closing]
  rfl

/-- The upper bound of a repetition, up to its closing brace. -/
def upperBound? (least : Nat) (text : List Char) : Option ((Nat × Option Nat) × List Char) := do
  let (most?, rest) ← count? fl text
  let most ← most?
  guard (least ≤ most)
  match rest with
  | '\x7d' :: rest => return ((least, some most), fl.skip rest)
  | _ => none

theorem upperBound?_follows (h : GoesOn text text') (least : Nat) :
    Follows Never text.length (upperBound? fl least text) (upperBound? fl least text') := by
  refine (count?_follows fl h).bind ?_ fun _ _ => False.elim
  intro most? rest rest' hon hle
  rcases most? with _ | most
  · exact .refused
  simp only [Option.bind_eq_bind, Option.bind_some]
  by_cases horder : least ≤ most
  · simp only [guard, horder, if_true, Option.pure_def, Option.bind_some]
    rcases rest with _ | ⟨c, more⟩
    · rcases GoesOn.nil_iff.1 hon with rfl | rfl <;> exact .refused
    obtain ⟨more', rfl, hmore⟩ := GoesOn.cons_iff.1 hon
    by_cases hc : c = '\x7d'
    · subst hc
      exact .read (hmore.skip fl) (Nat.le_trans (fl.skip_length_le more) (Nat.le_of_succ_le hle))
    · simp only [List.cons.injEq, hc, false_and, imp_false, not_false_eq_true, implies_true]
      exact .refused
  · simp only [guard, horder, if_false]
    exact .refused

/-- The rest of a repetition after its comma: without an upper bound, or with one. -/
def afterComma? (least : Nat) (text : List Char) : Option ((Nat × Option Nat) × List Char) :=
  match text with
  | '\x7d' :: rest => some ((least, none), fl.skip rest)
  | rest => upperBound? fl least rest

theorem afterComma?_follows (h : GoesOn text text') (least : Nat) :
    Follows Never text.length (afterComma? fl least text) (afterComma? fl least text') := by
  unfold afterComma?
  split
  · next rest =>
    obtain ⟨rest', rfl, hon⟩ := GoesOn.cons_iff.1 h
    exact .read (hon.skip fl) (Nat.le_succ_of_le (fl.skip_length_le rest))
  · next hclose =>
    split
    · obtain ⟨_, rfl, _⟩ := h.of_cons (by decide)
      exact absurd rfl (hclose _)
    · exact upperBound?_follows fl h least

theorem bounds?_follows (h : GoesOn text text') :
    Follows Never text.length (bounds? fl text) (bounds? fl text') := by
  unfold bounds?
  refine ((count?_follows fl (h.skip fl)).mono (fl.skip_length_le text)).bind ?_
    fun _ _ => False.elim
  intro least? rest rest' hon hle
  rcases least? with _ | least
  · exact .refused
  simp only [Option.bind_eq_bind, Option.bind_some]
  rcases rest with _ | ⟨c, more⟩
  · rcases GoesOn.nil_iff.1 hon with rfl | rfl <;> exact .refused
  obtain ⟨more', rfl, hmore⟩ := GoesOn.cons_iff.1 hon
  have hskip := hmore.skip fl
  have hmoreLength : (fl.skip more).length ≤ text.length :=
    Nat.le_trans (fl.skip_length_le more) (Nat.le_of_succ_le hle)
  by_cases hc : c = '\x7d'
  · subst hc
    exact .read hskip hmoreLength
  by_cases hcomma : c = ','
  · subst hcomma
    exact (afterComma?_follows fl hskip least).mono hmoreLength
  · simp only [List.cons.injEq, hc, hcomma, false_and, imp_false, not_false_eq_true, implies_true]
    exact .refused

end Counts

/-! ## Groups -/

section Groups

variable {text text' : List Char} (table : CharTable)

/-- The flags of a group are the same, or the parenthesis ends them. -/
theorem groupFlags?_cases (h : GoesOn text text') (seen : List Char) (fl : Flags) (on : Bool) :
    (groupFlags? seen fl on text = none ∧ groupFlags? seen fl on text' = none) ∨
    (∃ fl' seen' rest rest', groupFlags? seen fl on text = some (fl', seen', rest) ∧
      groupFlags? seen fl on text' = some (fl', seen', rest') ∧ GoesOn rest rest' ∧
      rest ≠ [] ∧ rest.length ≤ text.length) ∨
    (groupFlags? seen fl on text = none ∧
      ∃ fl' seen', groupFlags? seen fl on text' = some (fl', seen', closing)) := by
  induction text generalizing text' seen fl on with
  | nil =>
    rcases GoesOn.nil_iff.1 h with rfl | rfl
    · by_cases hhyphen : seen.head? = some '-'
      · exact Or.inl ⟨rfl, if_pos hhyphen⟩
      · exact Or.inr (Or.inr ⟨rfl, fl, seen, if_neg hhyphen⟩)
    · exact Or.inl ⟨rfl, rfl⟩
  | cons c rest ih =>
    obtain ⟨rest', rfl, hon⟩ := GoesOn.cons_iff.1 h
    have hnext : ∀ seen fl on,
        (groupFlags? seen fl on rest = none ∧ groupFlags? seen fl on rest' = none) ∨
        (∃ fl' seen' more more', groupFlags? seen fl on rest = some (fl', seen', more) ∧
          groupFlags? seen fl on rest' = some (fl', seen', more') ∧ GoesOn more more' ∧
          more ≠ [] ∧ more.length ≤ (c :: rest).length) ∨
        (groupFlags? seen fl on rest = none ∧
          ∃ fl' seen', groupFlags? seen fl on rest' = some (fl', seen', closing)) := by
      intro seen fl on
      rcases ih hon seen fl on with h | ⟨fl', seen', more, more', h, h', hon, hne, hle⟩ | h
      · exact Or.inl h
      · exact Or.inr (Or.inl ⟨fl', seen', more, more', h, h', hon, hne, Nat.le_succ_of_le hle⟩)
      · exact Or.inr (Or.inr h)
    rw [groupFlags?, groupFlags?]
    split_ifs
    · exact Or.inl ⟨rfl, rfl⟩
    · exact Or.inr (Or.inl ⟨fl, seen, _, _, rfl, rfl, h, List.cons_ne_nil _ _, Nat.le_refl _⟩)
    · exact Or.inl ⟨rfl, rfl⟩
    · exact hnext _ _ _
    · rcases setFlag? fl c on with _ | fl
      · exact Or.inl ⟨rfl, rfl⟩
      · exact hnext _ _ _

theorem groupName?_follows (h : GoesOn text text') :
    Follows Never text.length (groupName? table text) (groupName? table text') := by
  unfold groupName?
  rcases h.search (by decide : '>' ∉ closing) with ⟨hnone, hnone'⟩ |
    ⟨rest, rest', hrest, hrest', hon, hbefore, hlt⟩
  · rw [hnone, hnone']
    rcases text.takeWhile (· ≠ '>') with _ | _ <;> rcases text'.takeWhile (· ≠ '>') with _ | _ <;>
      exact .refused
  · rw [hrest, hrest', hbefore]
    rcases text'.takeWhile (· ≠ '>') with _ | ⟨c, name⟩
    · exact .refused
    simp only
    split_ifs
    · exact .read hon (Nat.le_of_lt hlt)
    · exact .refused

theorem enterNamed?_follows (h : GoesOn text text') (r : Reading) :
    Follows Never text.length (r.enterNamed? table text) (r.enterNamed? table text') := by
  refine (groupName?_follows table h).bind ?_ fun _ _ => False.elim
  intro name rest rest' hon hle
  by_cases hname : name ∉ r.names
  · simp only [guard, hname]
    exact .read hon hle
  · simp only [guard, hname]
    exact .refused

/-- What stands after the question mark of a group. -/
def openHead? (r : Reading) (text : List Char) : Option (Reading × List Char) := do
  let (fl, seen, rest) ← groupFlags? [] r.flags true text
  match rest with
  | ':' :: rest => return (r.enter fl, rest)
  | _ :: rest =>
    guard !seen.isEmpty
    return ({ r.add .flags with flags := fl }, rest)
  | [] => none

theorem openHead?_follows (h : GoesOn text text') (r : Reading) :
    Follows (fun _ rest' => rest' = ['$']) text.length (r.openHead? text) (r.openHead? text') := by
  unfold openHead?
  rcases groupFlags?_cases h [] r.flags true with ⟨hnone, hnone'⟩ |
    ⟨fl, seen, rest, rest', hread, hread', hon, hne, hle⟩ | ⟨hnone, fl, seen, hread'⟩
  · rw [hnone, hnone']
    exact .refused
  · rw [hread, hread']
    obtain ⟨c, more, rfl⟩ := List.exists_cons_of_ne_nil hne
    obtain ⟨more', rfl, hmore⟩ := GoesOn.cons_iff.1 hon
    have hmoreLength := Nat.le_of_succ_le hle
    by_cases hc : c = ':'
    · subst hc
      exact .read hmore hmoreLength
    · simp only [Option.bind_eq_bind, Option.bind_some]
      rcases seen with _ | ⟨d, seen⟩
      · exact .refused
      · exact .read hmore hmoreLength
  · rw [hnone, hread']
    rcases seen with _ | ⟨c, seen⟩
    · exact .refused
    · exact .past rfl

theorem head?_ne {s : List Char} {c : Char} (h : ∀ rest, s = c :: rest → False) :
    s.head? ≠ some c := by
  intro hc
  obtain ⟨rest, hs⟩ := List.head?_eq_some_iff.1 hc
  exact h rest hs

/-- What an opening parenthesis does, by the first signs after it. -/
theorem open?_eq (r : Reading) (text : List Char) : r.open? table text =
    let s := r.flags.skip text
    if s.head? = some '?' then
      if s.tail.head? = some '=' ∨ s.tail.head? = some '!' then none
      else if s.tail.head? = some '<' then
        if s.tail.tail.head? = some '=' ∨ s.tail.tail.head? = some '!' then none
        else r.enterNamed? table s.tail.tail
      else if s.tail.head? = some 'P' ∧ s.tail.tail.head? = some '<' then
        r.enterNamed? table s.tail.tail.tail
      else r.openHead? s.tail
    else some (r.enter r.flags, s) := by
  unfold open?
  generalize r.flags.skip text = s
  simp only
  split
  · rfl
  · rfl
  · rfl
  · rfl
  · rfl
  · next rest hequal hbang =>
    have hnone : ¬(rest.head? = some '=' ∨ rest.head? = some '!') :=
      not_or.2 ⟨head?_ne hequal, head?_ne hbang⟩
    exact (if_neg hnone).symm
  · next rest hequal hbang _ _ hnamed hangle =>
    have hnone : ¬(rest.head? = some '=' ∨ rest.head? = some '!') :=
      not_or.2 ⟨head?_ne hequal, head?_ne hbang⟩
    have hname : ¬(rest.head? = some 'P' ∧ rest.tail.head? = some '<') := by
      rintro ⟨hfirst, hsecond⟩
      obtain ⟨more, rfl⟩ := List.head?_eq_some_iff.1 hfirst
      obtain ⟨more, hmore⟩ := List.head?_eq_some_iff.1 hsecond
      exact hnamed more (congrArg _ hmore)
    rw [List.head?_cons, if_pos rfl, List.tail_cons, if_neg hnone, if_neg (head?_ne hangle),
      if_neg hname]
    rfl
  · next hquestion => rw [if_neg (head?_ne hquestion)]

theorem open?_follows (h : GoesOn text text') (r : Reading) :
    Follows (fun _ rest' => rest' = ['$']) text.length (r.open? table text)
      (r.open? table text') := by
  have hskip := h.skip r.flags
  have hlength := r.flags.skip_length_le text
  rw [open?_eq, open?_eq]
  generalize r.flags.skip text = s at *
  generalize r.flags.skip text' = s' at *
  refine Follows.mono ?_ hlength
  simp only [hskip.head?_iff (by decide : '?' ≠ ')')]
  by_cases hquestion : s.head? = some '?'
  · have htail := hskip.tail hquestion
    have hone : s.tail.length ≤ s.length := by simp
    rw [if_pos hquestion, if_pos hquestion]
    simp only [htail.head?_iff (by decide : '=' ≠ ')'), htail.head?_iff (by decide : '!' ≠ ')'),
      htail.head?_iff (by decide : '<' ≠ ')'), htail.head?_iff (by decide : 'P' ≠ ')')]
    by_cases hlook : s.tail.head? = some '=' ∨ s.tail.head? = some '!'
    · rw [if_pos hlook, if_pos hlook]
      exact .refused
    rw [if_neg hlook, if_neg hlook]
    by_cases hangle : s.tail.head? = some '<'
    · have htail₂ := htail.tail hangle
      have htwo : s.tail.tail.length ≤ s.length := by simp; omega
      rw [if_pos hangle, if_pos hangle]
      simp only [htail₂.head?_iff (by decide : '=' ≠ ')'),
        htail₂.head?_iff (by decide : '!' ≠ ')')]
      split_ifs
      · exact .refused
      · exact ((enterNamed?_follows table htail₂ r).mono htwo).of_never
    rw [if_neg hangle, if_neg hangle]
    have hhead := (openHead?_follows htail r).mono hone
    by_cases hletter : s.tail.head? = some 'P'
    · have htail₂ := htail.tail hletter
      simp only [htail₂.head?_iff (by decide : '<' ≠ ')'), hletter, true_and]
      by_cases hname : s.tail.tail.head? = some '<'
      · have hthree : s.tail.tail.tail.length ≤ s.length := by simp; omega
        rw [if_pos hname, if_pos hname]
        exact ((enterNamed?_follows table (htail₂.tail hname) r).mono hthree).of_never
      · rw [if_neg hname, if_neg hname]
        exact hhead
    · simp only [hletter, false_and, if_false]
      exact hhead
  · rw [if_neg hquestion, if_neg hquestion]
    exact .read hskip (Nat.le_refl _)

end Groups

/-! ## One step -/

section Step

variable {text text' : List Char} (table : CharTable)

theorem afterLazy_goesOn (h : GoesOn text text') : GoesOn (afterLazy text) (afterLazy text') := by
  unfold afterLazy
  split
  · obtain ⟨rest', rfl, hon⟩ := GoesOn.cons_iff.1 h
    exact hon
  · next hlazy =>
    split
    · obtain ⟨_, rfl, _⟩ := h.of_cons (by decide)
      exact absurd rfl (hlazy _)
    · exact h

theorem afterLazy_length_le (text : List Char) : (afterLazy text).length ≤ text.length := by
  unfold afterLazy
  split
  · exact Nat.le_succ _
  · exact Nat.le_refl _

/-- What is left where a step reads on: no parenthesis is left, or braces that hold nothing. -/
def PastStep (r : Reading) (rest' : List Char) : Prop :=
  rest' = ['$'] ∨ ∃ more, rest' = '\x7b' :: more ∧ r.flags.skip more = closing

theorem step?_follows (h : GoesOn text text') (r : Reading) (c : Char) :
    Follows PastStep text.length (r.step? table c text) (r.step? table c text') := by
  have hlazy := afterLazy_goesOn h
  have hlazyLength := afterLazy_length_le text
  unfold step?
  split
  · exact (open?_follows table h r).imp fun _ _ => Or.inl
  · exact .looked_up _ h (Nat.le_refl _)
  · exact .read h (Nat.le_refl _)
  · refine (bracketSet?_follows table r.flags h).bind ?_ fun _ _ => False.elim
    intro node rest rest' hon hle
    simp only
    rcases r.flags.admit? node.set with _ | s
    · exact .refused
    · exact .read hon hle
  · exact .looked_up _ hlazy hlazyLength
  · exact .looked_up _ hlazy hlazyLength
  · exact .looked_up _ hlazy hlazyLength
  · refine (bounds?_follows r.flags h).bind ?_ fun _ _ => False.elim
    rintro ⟨least, most?⟩ rest rest' hon hle
    simp only
    rcases r.repeatLast? (.rep least most?) with _ | r₁
    · exact .refused
    · exact .read (afterLazy_goesOn hon) (Nat.le_trans (afterLazy_length_le rest) hle)
  · refine (escape?_follows table r.flags h).bind ?_ ?_
    · intro a rest rest' hon hle
      simp only
      rcases atom? table r.flags a with _ | x
      · exact .refused
      · exact .read hon hle
    · rintro a rest' (⟨rfl, rfl⟩ | ⟨⟨l, rfl⟩, more, rfl, hmore⟩)
      · exact .past (Or.inl rfl)
      · exact .past (Or.inr ⟨more, rfl, hmore⟩)
  · exact .looked_up _ h (Nat.le_refl _)
  · exact .read h (Nat.le_refl _)
  · exact .read h (Nat.le_refl _)
  · exact .looked_up _ h (Nat.le_refl _)

/-- The reading with more groups open around all that is read. -/
def under (r : Reading) (gs : List Group) : Reading := { r with groups := r.groups ++ gs }

section Under

variable (r : Reading) (gs : List Group)

theorem enterNamed?_under (text : List Char) : (r.under gs).enterNamed? table text =
    (r.enterNamed? table text).map fun (r, rest) => (r.under gs, rest) := by
  unfold enterNamed?
  rcases groupName? table text with _ | ⟨name, rest⟩
  · rfl
  simp only [Option.bind_eq_bind, Option.bind_some]
  by_cases hname : name ∉ r.names
  · have hname' : name ∉ (r.under gs).names := hname
    simp only [guard, hname, hname']
    rfl
  · have hname' : ¬name ∉ (r.under gs).names := hname
    simp only [guard, hname, hname']
    rfl

theorem openHead?_under (text : List Char) : (r.under gs).openHead? text =
    (r.openHead? text).map fun (r, rest) => (r.under gs, rest) := by
  unfold openHead?
  have hflags : (r.under gs).flags = r.flags := rfl
  rw [hflags]
  rcases groupFlags? [] r.flags true text with _ | ⟨fl, seen, rest⟩
  · rfl
  simp only [Option.bind_eq_bind, Option.bind_some]
  split
  · rfl
  · rcases seen with _ | _ <;> rfl
  · rfl

theorem open?_under (text : List Char) : (r.under gs).open? table text =
    (r.open? table text).map fun (r, rest) => (r.under gs, rest) := by
  have hflags : (r.under gs).flags = r.flags := rfl
  rw [open?_eq, open?_eq, hflags]
  simp only [enterNamed?_under, openHead?_under]
  split_ifs <;> rfl

theorem close?_under (h : r.groups ≠ []) :
    (r.under gs).close? = r.close?.map (·.under gs) := by
  obtain ⟨g, groups, hgroups⟩ := List.exists_cons_of_ne_nil h
  unfold close? under
  simp only [hgroups, List.cons_append]
  rfl

theorem repeatLast?_under (f : Regex → Regex) :
    (r.under gs).repeatLast? f = (r.repeatLast? f).map (·.under gs) := by
  have hparts : (r.under gs).branches = r.branches := rfl
  unfold repeatLast?
  rw [hparts]
  split <;> rfl

/-- The groups around do not matter to a step, unless it is what closes one of them. -/
theorem step?_under {c : Char} (text : List Char) (h : ¬(c = ')' ∧ r.groups = [])) :
    (r.under gs).step? table c text =
      (r.step? table c text).map fun (r, rest) => (r.under gs, rest) := by
  have hflags : (r.under gs).flags = r.flags := rfl
  unfold step?
  rw [hflags]
  split
  · exact open?_under table r gs text
  · rw [close?_under r gs fun hgroups => h ⟨rfl, hgroups⟩]
    rcases r.close? with _ | r₁ <;> rfl
  · rfl
  · rcases r.flags.bracketSet? table text with _ | ⟨node, rest⟩
    · rfl
    simp only [Option.bind_eq_bind, Option.bind_some]
    rcases r.flags.admit? node.set with _ | s <;> rfl
  · rw [repeatLast?_under]
    rcases r.repeatLast? _ with _ | r₁ <;> rfl
  · rw [repeatLast?_under]
    rcases r.repeatLast? _ with _ | r₁ <;> rfl
  · rw [repeatLast?_under]
    rcases r.repeatLast? _ with _ | r₁ <;> rfl
  · rcases bounds? r.flags text with _ | ⟨⟨least, most?⟩, rest⟩
    · rfl
    simp only [Option.bind_eq_bind, Option.bind_some]
    rw [repeatLast?_under]
    rcases r.repeatLast? _ with _ | r₁ <;> rfl
  · rcases escape? table r.flags text with _ | ⟨a, rest⟩
    · rfl
    simp only [Option.bind_eq_bind, Option.bind_some]
    rcases atom? table r.flags a with _ | x <;> rfl
  · rcases dot? r.flags with _ | x <;> rfl
  · rfl
  · rfl
  · rcases atom? table r.flags (.char c) with _ | x <;> rfl

end Under

end Step

end Reading

end StableNames.Pattern
