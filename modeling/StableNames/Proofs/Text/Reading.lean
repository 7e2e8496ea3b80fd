-- What the readers of lines, columns, words and numerals give back of a
-- text that was put together from such parts. Each part must be free of
-- the characters that end it.
import Mathlib.Data.List.TakeWhile
import StableNames.Text.Blank
import StableNames.Text.Lines
import StableNames.Text.Numeral
import StableNames.Text.Search

namespace StableNames.Text

variable {c : Char} {text : List Char} {limit value n : Nat}

/-! ## Lines -/

/-- A line that holds no line feed and ends in no carriage return. -/
def IsLine (line : List Char) : Prop := '\n' ∉ line ∧ line.getLast? ≠ some '\r'

/-- Such a line is the first one of the text that it starts. -/
theorem lines_append_newline {line : List Char} (h : IsLine line) (rest : List Char) :
    lines (line ++ '\n' :: rest) = line :: lines rest := by
  induction line with
  | nil => rw [List.nil_append, lines]
  | cons c line ih =>
    obtain ⟨hn, hr⟩ := h
    rw [List.mem_cons, not_or] at hn
    have hrest : IsLine line := by
      refine ⟨hn.2, fun hlast => hr ?_⟩
      rw [List.getLast?_cons, hlast]
      rfl
    rw [List.cons_append, lines.eq_4 _ _ (fun h => hn.1 h.symm), ih hrest]
    -- a carriage return before the next character is not before a line feed
    rintro more rfl hmore
    cases line with
    | nil => exact hr rfl
    | cons next line =>
      rw [List.cons_append, List.cons.injEq] at hmore
      exact hn.2 (hmore.1 ▸ List.mem_cons_self)

/-- The lines of a text that is made of whole lines. -/
theorem lines_flatMap {ls : List (List Char)} (h : ∀ line ∈ ls, IsLine line) :
    lines (ls.flatMap (· ++ ['\n'])) = ls := by
  induction ls with
  | nil => rfl
  | cons line ls ih =>
    have hline := h line List.mem_cons_self
    rw [List.flatMap_cons, List.append_assoc, List.singleton_append,
      lines_append_newline hline, ih fun l hl => h l (List.mem_cons_of_mem _ hl)]

/-- The text with a carriage return before each line feed. -/
def withReturns (text : List Char) : List Char :=
  text.flatMap fun c => if c = '\n' then ['\r', '\n'] else [c]

/-- Line feeds and line feeds behind a carriage return end the same lines. -/
theorem lines_withReturns (h : '\r' ∉ text) : lines (withReturns text) = lines text := by
  unfold withReturns
  induction text with
  | nil => rfl
  | cons c text ih =>
    rw [List.mem_cons, not_or] at h
    obtain ⟨hc, htext⟩ := h
    rw [List.flatMap_cons]
    by_cases hfeed : c = '\n'
    · subst hfeed
      rw [if_pos rfl, List.cons_append, List.singleton_append, lines, lines, ih htext]
    · rw [if_neg hfeed, List.singleton_append, lines.eq_4 _ _ hfeed fun more hr _ => hc hr.symm,
        lines.eq_4 _ _ hfeed fun more hr _ => hc hr.symm, ih htext]

/-! ## Parts between marks -/

/-- A text is split into the parts that it was joined from, if none of them holds the mark. -/
theorem splitOn_intercalate {mark : Char} {separator : String} {parts : List String}
    (hseparator : separator.toList = [mark]) (hne : parts ≠ [])
    (h : ∀ part ∈ parts, mark ∉ part.toList) :
    ((separator.intercalate parts).toList.splitOn mark).map String.ofList = parts := by
  rw [String.toList_intercalate, hseparator, List.splitOn_intercalate]
  · simp [Function.comp_def]
  · simpa using h
  · simpa using hne

theorem mark_not_mem_of_mem_splitOn {mark : Char} {part text : List Char}
    (h : part ∈ text.splitOn mark) : mark ∉ part := by
  induction text generalizing part with
  | nil =>
    rw [List.splitOn_nil, List.mem_singleton] at h
    subst h
    exact List.not_mem_nil
  | cons c text ih =>
    rw [List.splitOn_cons_eq_if_modifyHead] at h
    split at h
    · rcases List.mem_cons.1 h with rfl | h
      · exact List.not_mem_nil
      · exact ih h
    · next hc =>
      rcases hparts : text.splitOn mark with _ | ⟨first, rest⟩
      · exact absurd hparts (List.splitOn_ne_nil mark text)
      · rw [hparts, List.modifyHead_cons] at h
        rcases List.mem_cons.1 h with rfl | h
        · have hfirst : mark ∉ first := ih (hparts ▸ List.mem_cons_self)
          rw [List.mem_cons, not_or]
          exact ⟨fun h => hc (beq_iff_eq.2 h.symm), hfirst⟩
        · exact ih (hparts ▸ List.mem_cons_of_mem _ h)

/-- Every character but the mark stands in one of the parts. -/
theorem exists_mem_splitOn_iff {mark c : Char} {text : List Char} (hc : c ≠ mark) :
    (∃ part ∈ text.splitOn mark, c ∈ part) ↔ c ∈ text := by
  induction text with
  | nil => simp
  | cons d text ih =>
    rw [List.splitOn_cons_eq_if_modifyHead, List.mem_cons, ← ih]
    split
    · next hd =>
      have hne : c ≠ d := fun h => hc (h.trans (beq_iff_eq.1 hd))
      simp [hne]
    · rcases hparts : text.splitOn mark with _ | ⟨first, rest⟩
      · exact absurd hparts (List.splitOn_ne_nil mark text)
      · simp [or_assoc]

/-! ## Columns -/

theorem columnsOf_intercalate {columns : List String} (hne : columns ≠ [])
    (h : ∀ column ∈ columns, '\t' ∉ column.toList) :
    columnsOf ("\t".intercalate columns) = columns :=
  splitOn_intercalate rfl hne h

/-- A character of a line stands in one of its columns, unless it is a tab. -/
theorem mem_of_mem_intercalate {c : Char} {columns : List String}
    (h : c ∈ ("\t".intercalate columns).toList) :
    c = '\t' ∨ ∃ column ∈ columns, c ∈ column.toList := by
  induction columns with
  | nil => simp at h
  | cons column columns ih =>
    cases columns with
    | nil => exact .inr ⟨column, List.mem_cons_self, by simpa using h⟩
    | cons next columns =>
      rw [String.intercalate_cons_cons, String.toList_append, String.toList_append,
        List.mem_append, List.mem_append] at h
      rcases h with (h | h) | h
      · exact .inr ⟨column, List.mem_cons_self, h⟩
      · exact .inl (List.mem_singleton.1 h)
      · rcases ih h with h | ⟨col, hcol, h⟩
        · exact .inl h
        · exact .inr ⟨col, List.mem_cons_of_mem _ hcol, h⟩

/-- A line is empty only if all its columns are. -/
theorem intercalate_ne_nil {column : String} {columns : List String} (h : column ≠ "") :
    ("\t".intercalate (column :: columns)).toList ≠ [] := by
  have hcolumn : column.toList ≠ [] := by simpa using h
  cases columns with
  | nil => simpa using h
  | cons next columns =>
    rw [String.intercalate_cons_cons, String.toList_append, String.toList_append]
    simp [hcolumn]

/-- A line starts with its first column. -/
theorem prefix_of_columnsOf {line first : String} {columns : List String}
    (h : columnsOf line = first :: columns) : first.toList <+: line.toList := by
  unfold columnsOf at h
  obtain ⟨part, parts, hparts, rfl, -⟩ := List.map_eq_cons_iff.1 h
  have hline : ['\t'].intercalate (line.toList.splitOn '\t') = line.toList :=
    List.intercalate_splitOn '\t'
  rw [String.toList_ofList, ← hline, hparts]
  cases parts with
  | nil => simp
  | cons next parts => 
    rw [List.intercalate_cons_cons]
    exact ⟨_, (List.append_assoc _ _ _).symm⟩

/-! ## Words -/

theorem words_cons_blank {c : Char} (hc : isBlank c = true) (text : List Char) :
    words (c :: text) = words text := by
  unfold words
  rw [List.splitOnP_cons_eq_if_modifyHead, if_pos hc]
  simp

theorem words_append_blank {word : List Char} (hne : word ≠ [])
    (hw : ∀ x ∈ word, isBlank x = false) {c : Char} (hc : isBlank c = true) (text : List Char) :
    words (word ++ c :: text) = word :: words text := by
  unfold words
  rw [List.splitOnP_append_cons_of_forall_mem hw c hc]
  simp [hne]

theorem words_word {word : List Char} (hne : word ≠ []) (hw : ∀ x ∈ word, isBlank x = false) :
    words word = [word] := by
  unfold words
  rw [List.splitOnP_eq_singleton hw]
  simp [hne]

/-- A text with a character that is no blank does not vanish when it is trimmed. -/
theorem trim_ne_nil {text : List Char} {c : Char} (hc : c ∈ text) (hb : isBlank c = false) :
    trim text ≠ [] := by
  unfold trim
  intro h
  rw [List.reverse_eq_nil_iff, List.dropWhile_eq_nil_iff] at h
  have hne : text.dropWhile isBlank ≠ [] := by
    rw [Ne, List.dropWhile_eq_nil_iff]
    intro hall
    rw [hall c hc] at hb
    cases hb
  have hhead := List.head_dropWhile_not isBlank hne
  rw [h _ (List.mem_reverse.2 (List.head_mem hne))] at hhead
  cases hhead

theorem trim_eq_nil : trim text = [] ↔ ∀ c ∈ text, isBlank c = true := by
  constructor
  · intro h c hc
    by_contra hb
    exact trim_ne_nil hc (Bool.not_eq_true _ ▸ hb) h
  · intro h
    unfold trim
    rw [List.dropWhile_eq_nil_iff.2 h]
    rfl

/-! ## Places -/

@[simp] theorem after?_append (start text : List Char) :
    after? start (start ++ text) = some text := by
  induction start with
  | nil => rfl
  | cons c start ih => simp [after?, ih]

/-! ## Numerals -/

theorem digit?_of_isDigit {c : Char} (h : c.isDigit = true) :
    digit? c = some (c.toNat - '0'.toNat) := by
  unfold digit?
  rw [if_pos]
  simpa [Char.isDigit, Char.le_def, UInt32.le_iff_toNat_le] using h

theorem le_ofDigitChars (digits : List Char) (value : Nat) :
    value ≤ Nat.ofDigitChars 10 digits value := by
  induction digits generalizing value with
  | nil => simp
  | cons c digits ih =>
    rw [Nat.ofDigitChars_cons]
    exact Nat.le_trans (by omega) (ih _)

theorem readDigits_eq_ok {limit value : Nat} {digits : List Char}
    (hd : ∀ c ∈ digits, c.isDigit = true) (hlt : Nat.ofDigitChars 10 digits value < limit) :
    readDigits limit value digits = .ok (Nat.ofDigitChars 10 digits value) := by
  induction digits generalizing value with
  | nil => simp [readDigits]
  | cons c digits ih =>
    rw [Nat.ofDigitChars_cons] at hlt ⊢
    have hle := le_ofDigitChars digits (10 * value + (c.toNat - '0'.toNat))
    unfold readDigits
    rw [digit?_of_isDigit (hd c List.mem_cons_self)]
    simp only
    rw [if_pos (by omega), ih (fun x hx => hd x (List.mem_cons_of_mem _ hx)) hlt]

theorem isDigit_of_mem_toString {n : Nat} {c : Char} (h : c ∈ (toString n).toList) :
    c.isDigit = true := by
  rw [Nat.toString_eq_repr, Nat.toList_repr] at h
  exact Nat.isDigit_of_mem_toDigits (by omega) (by omega) h

theorem toString_ne_nil (n : Nat) : (toString n).toList ≠ [] := by
  rw [Nat.toString_eq_repr, Nat.toList_repr]
  exact Nat.toDigits_ne_nil

/-- Digits with their value. One plus sign may stand before them. -/
inductive IsNumeral : List Char → Nat → Prop
  | plain {digits : List Char} (hne : digits ≠ []) (hd : ∀ c ∈ digits, c.isDigit = true) :
      IsNumeral digits (Nat.ofDigitChars 10 digits 0)
  | signed {digits : List Char} (hne : digits ≠ []) (hd : ∀ c ∈ digits, c.isDigit = true) :
      IsNumeral ('+' :: digits) (Nat.ofDigitChars 10 digits 0)

theorem digit?_eq_some {d : Nat} :
    digit? c = some d ↔ c.isDigit = true ∧ d = c.toNat - '0'.toNat := by
  constructor
  · intro h
    have hc : c.isDigit = true := by
      unfold digit? at h
      split at h
      · next hc => simpa [Char.isDigit, Char.le_def, UInt32.le_iff_toNat_le] using hc
      · cases h
    rw [digit?_of_isDigit hc] at h
    exact ⟨hc, (Option.some.inj h).symm⟩
  · rintro ⟨hc, rfl⟩
    exact digit?_of_isDigit hc

/-- Digits are read only as what they are worth, and only below the limit. -/
theorem of_readDigits {digits : List Char} (h : readDigits limit value digits = .ok n) :
    (∀ c ∈ digits, c.isDigit = true) ∧ n = Nat.ofDigitChars 10 digits value ∧
      (digits ≠ [] → n < limit) := by
  induction digits generalizing value with
  | nil =>
    obtain rfl := Except.ok.inj h
    simp
  | cons c digits ih =>
    unfold readDigits at h
    split at h
    · cases h
    · next d hc =>
      obtain ⟨hdigit, rfl⟩ := digit?_eq_some.1 hc
      split at h
      · next hlt =>
        obtain ⟨hd, hn, hlimit⟩ := ih h
        rw [Nat.ofDigitChars_cons]
        refine ⟨List.forall_mem_cons.2 ⟨hdigit, hd⟩, hn, fun _ => ?_⟩
        rcases digits with _ | ⟨next, digits⟩
        · rwa [hn]
        · exact hlimit (List.cons_ne_nil _ _)
      · cases h

theorem readDigits_eq_ok_iff {digits : List Char} (hne : digits ≠ []) :
    readDigits limit 0 digits = .ok n ↔
      (∀ c ∈ digits, c.isDigit = true) ∧ n = Nat.ofDigitChars 10 digits 0 ∧ n < limit := by
  constructor
  · intro h
    obtain ⟨hd, hn, hlimit⟩ := of_readDigits h
    exact ⟨hd, hn, hlimit hne⟩
  · rintro ⟨hd, rfl, hlt⟩
    exact readDigits_eq_ok hd hlt

theorem isNumeral_signed {digits : List Char} :
    IsNumeral ('+' :: digits) n ↔
      digits ≠ [] ∧ (∀ c ∈ digits, c.isDigit = true) ∧ n = Nat.ofDigitChars 10 digits 0 := by
  constructor
  · intro h
    cases h with
    | plain hne hd => exact absurd (hd '+' List.mem_cons_self) (by decide)
    | signed hne hd => exact ⟨hne, hd, rfl⟩
  · rintro ⟨hne, hd, rfl⟩
    exact .signed hne hd

theorem isNumeral_plain {digits : List Char} (hplus : ∀ rest, digits ≠ '+' :: rest) :
    IsNumeral digits n ↔
      digits ≠ [] ∧ (∀ c ∈ digits, c.isDigit = true) ∧ n = Nat.ofDigitChars 10 digits 0 := by
  constructor
  · intro h
    cases h with
    | plain hne hd => exact ⟨hne, hd, rfl⟩
    | signed hne hd => exact absurd rfl (hplus _)
  · rintro ⟨hne, hd, rfl⟩
    exact .plain hne hd

/-- The texts that are read as numbers. -/
theorem readNumeral_eq_ok : readNumeral limit text = .ok n ↔ IsNumeral text n ∧ n < limit := by
  unfold readNumeral
  split
  · simp [isNumeral_plain]
  · simp [isNumeral_signed]
  · next digits hne =>
    have hne : digits ≠ [] := fun h => hne (h ▸ rfl)
    rw [readDigits_eq_ok_iff hne, isNumeral_signed, and_iff_right hne, and_assoc]
  · next hne _ hplus =>
    have hne : text ≠ [] := fun h => hne h
    rw [readDigits_eq_ok_iff hne, isNumeral_plain hplus, and_iff_right hne, and_assoc]

theorem isNumeral_toString (n : Nat) : IsNumeral (toString n).toList n := by
  have hvalue : Nat.ofDigitChars 10 (toString n).toList 0 = n := by
    rw [Nat.toString_eq_repr, Nat.toList_repr, Nat.ofDigitChars_ten_toDigits]
  have hnumeral := IsNumeral.plain (toString_ne_nil n) fun c => @isDigit_of_mem_toString n c
  rwa [hvalue] at hnumeral

end StableNames.Text
