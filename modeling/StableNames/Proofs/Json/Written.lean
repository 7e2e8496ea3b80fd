-- Values that are written on one line are read back. A character that is
-- escaped is read as itself, digits end where the text goes on with
-- another sign, and the signs around items and members tell where each
-- of them ends.
import Mathlib.Data.Option.Basic
import StableNames.Json.Reader
import StableNames.Json.Writer
import StableNames.Proofs.Text.Reading

namespace StableNames.Json

/-! ## Strings -/

theorem hexValue?_hexDigit : ∀ n < 16, Unicode.hexValue? (hexDigit n) = some n := by decide

/-- A control character is written by its number. -/
theorem ofNat_hexNumber {c : Char} (h : c.toNat < 0x20) :
    StringUnit.ofNat
      (Unicode.hexNumber ['0', '0', hexDigit (c.toNat / 16), hexDigit (c.toNat % 16)]) =
      .char c := by
  have hhigh := hexValue?_hexDigit (c.toNat / 16) (by omega)
  have hlow := hexValue?_hexDigit (c.toNat % 16) (by omega)
  have hnumber : Unicode.hexNumber
      ['0', '0', hexDigit (c.toNat / 16), hexDigit (c.toNat % 16)] = c.toNat := by
    have hzero : Unicode.hexValue? '0' = some 0 := by decide
    simp only [Unicode.hexNumber, List.filterMap_cons, hzero, hhigh, hlow, List.filterMap_nil,
      List.foldl_cons, List.foldl_nil]
    omega
  rw [hnumber]
  unfold StringUnit.ofNat
  rw [if_neg (by omega), if_neg (by omega), Char.ofNat_toNat]

/-- The three ways to write a character. -/
theorem escapeChar_cases (c : Char) :
    (∃ e, escapeChar c = ['\\', e] ∧ shortEscape? e = some c) ∨
    (c.toNat < 0x20 ∧
      escapeChar c = ['\\', 'u', '0', '0', hexDigit (c.toNat / 16), hexDigit (c.toNat % 16)]) ∨
    (0x20 ≤ c.toNat ∧ c ≠ '"' ∧ c ≠ '\\' ∧ escapeChar c = [c]) := by
  by_cases hshort : c ∈ ['"', '\\', '\x08', '\x0c', '\n', '\r', '\t']
  · left
    simp only [List.mem_cons, List.not_mem_nil, or_false] at hshort
    rcases hshort with rfl | rfl | rfl | rfl | rfl | rfl | rfl
    · exact ⟨'"', rfl, rfl⟩
    · exact ⟨'\\', rfl, rfl⟩
    · exact ⟨'b', rfl, rfl⟩
    · exact ⟨'f', rfl, rfl⟩
    · exact ⟨'n', rfl, rfl⟩
    · exact ⟨'r', rfl, rfl⟩
    · exact ⟨'t', rfl, rfl⟩
  · right
    simp only [List.mem_cons, List.not_mem_nil, or_false, not_or] at hshort
    obtain ⟨h1, h2, h3, h4, h5, h6, h7⟩ := hshort
    unfold escapeChar
    rw [if_neg h1, if_neg h2, if_neg h3, if_neg h4, if_neg h5, if_neg h6, if_neg h7]
    by_cases hcontrol : c.toNat < 0x20
    · rw [if_pos hcontrol]
      exact Or.inl ⟨hcontrol, rfl⟩
    · rw [if_neg hcontrol]
      exact Or.inr ⟨by omega, h1, h2, rfl⟩

/-- A character as it is written is read as itself. -/
theorem readUnits?_escapeChar (c : Char) (rest : List Char) :
    readUnits? (escapeChar c ++ rest) =
      (readUnits? rest).map fun (units, rest) => (.char c :: units, rest) := by
  rcases escapeChar_cases c with ⟨e, hwritten, he⟩ | ⟨hcontrol, hwritten⟩ |
    ⟨hprinted, hquote, hslash, hwritten⟩
  · have hu : e ≠ 'u' := by
      rintro rfl
      cases he
    rw [hwritten, List.cons_append, List.cons_append, List.nil_append, readUnits?, he]
    · rcases readUnits? rest <;> rfl
    · intro _ _ _ _ _ h
      exact absurd h hu
  · have hhigh := hexValue?_hexDigit (c.toNat / 16) (by omega)
    have hlow := hexValue?_hexDigit (c.toNat % 16) (by omega)
    have hzero : Unicode.hexValue? '0' = some 0 := by decide
    simp only [hwritten, List.cons_append, List.nil_append, readUnits?, List.all_cons,
      List.all_nil, hzero, hhigh, hlow, Option.isSome_some, Bool.and_self, guard, if_true,
      ofNat_hexNumber hcontrol]
    rcases readUnits? rest <;> rfl
  · rw [hwritten, List.singleton_append, readUnits?]
    · simp only [hprinted, ne_eq, hslash, not_false_eq_true, and_self, guard, if_true]
      rcases readUnits? rest <;> rfl
    · exact hquote
    · intro _ _ _ _ _ h
      exact absurd h hslash
    · intro _ _ h
      exact absurd h hslash

theorem readUnits?_written (cs rest : List Char) :
    readUnits? (cs.flatMap escapeChar ++ '"' :: rest) = some (cs.map .char, rest) := by
  induction cs with
  | nil => rfl
  | cons c cs ih =>
    rw [List.flatMap_cons, List.append_assoc, readUnits?_escapeChar, ih]
    rfl

theorem joinUnits?_map_char (cs : List Char) : joinUnits? (cs.map .char) = some cs := by
  induction cs with
  | nil => rfl
  | cons c cs ih =>
    rw [List.map_cons, joinUnits?, ih]
    rfl

/-- A string, between its quotation marks. -/
theorem toList_quote (s : String) :
    (quote s).toList = '"' :: (s.toList.flatMap escapeChar ++ ['"']) := by
  unfold quote
  simp

theorem readString?_written (s : String) (rest : List Char) :
    readString? (s.toList.flatMap escapeChar ++ '"' :: rest) = some (some s, rest) := by
  unfold readString?
  rw [readUnits?_written]
  simp [joinUnits?_map_char]

/-! ## Numbers -/

/-- The text goes on with a sign that is no part of a number. -/
def EndsNumber (rest : List Char) : Prop :=
  ∀ c ∈ rest.head?, c.isDigit = false ∧ c ≠ '.' ∧ c ≠ 'e' ∧ c ≠ 'E'

theorem head?_toDigits {n : Nat} (h : 0 < n) : (Nat.toDigits 10 n).head? ≠ some '0' := by
  induction n using Nat.strongRecOn with
  | ind n ih =>
    rw [Nat.toDigits_eq_if (by omega)]
    split
    · next hlt =>
      have hdigit : ∀ d < 10, 0 < d → d.digitChar ≠ '0' := by decide
      simpa using hdigit n hlt h
    · next hge =>
      have hfirst := ih (n / 10) (by omega) (by omega)
      have hne : Nat.toDigits 10 (n / 10) ≠ [] := Nat.toDigits_ne_nil
      rcases hds : Nat.toDigits 10 (n / 10) with _ | ⟨d, ds⟩
      · exact absurd hds hne
      · rw [hds] at hfirst
        exact hfirst

/-- No zero stands before another digit. -/
theorem toString_ne_zero_cons (n : Nat) (d : Char) (ds : List Char) :
    (toString n).toList ≠ '0' :: d :: ds := by
  rw [Nat.toString_eq_repr, Nat.toList_repr]
  intro h
  rcases Nat.eq_zero_or_pos n with rfl | hn
  · cases h
  · exact head?_toDigits hn (by rw [h]; rfl)

theorem spanDigits_append {ds rest : List Char} (hd : ∀ c ∈ ds, c.isDigit = true)
    (hrest : ∀ c ∈ rest.head?, c.isDigit = false) : spanDigits (ds ++ rest) = (ds, rest) := by
  have hsome : ∀ c ∈ ds, (Text.digit? c).isSome = true := by
    intro c hc
    rw [Text.digit?_of_isDigit (hd c hc)]
    rfl
  have hnone : ∀ c ∈ rest.head?, (Text.digit? c).isSome = false := by
    intro c hc
    rw [Option.isSome_eq_false_iff, Option.isNone_iff_eq_none]
    by_contra hne
    obtain ⟨d, hd⟩ := Option.ne_none_iff_exists'.1 hne
    have := (Text.digit?_eq_some.1 hd).1
    rw [hrest c hc] at this
    cases this
  unfold spanDigits
  rw [List.takeWhile_append_of_pos hsome, List.dropWhile_append_of_pos hsome]
  cases rest with
  | nil => simp
  | cons c rest => simp [hnone c rfl]

theorem readWhole?_toString (n : Nat) {rest : List Char} (h : EndsNumber rest) :
    readWhole? ((toString n).toList ++ rest) = some ((toString n).toList, rest) := by
  unfold readWhole?
  rw [spanDigits_append (fun c hc => Text.isDigit_of_mem_toString hc) fun c hc => (h c hc).1]
  simp only
  split
  · next hnil => exact absurd hnil (Text.toString_ne_nil n)
  · next hzero => exact absurd hzero (toString_ne_zero_cons n _ _)
  · rfl

theorem readNumber?_toString (n : Nat) {rest : List Char} (h : EndsNumber rest) :
    readNumber? ((toString n).toList ++ rest) = some ((toString n).toList, rest) := by
  have hfraction : readFraction? rest = some ([], rest) := by
    cases rest with
    | nil => rfl
    | cons c rest =>
      have hc := (h c rfl).2.1
      unfold readFraction?
      split
      · next heq => exact absurd (List.cons.inj heq).1 hc
      · rfl
  have hexponent : readExponent? rest = some ([], rest) := by
    cases rest with
    | nil => rfl
    | cons c rest =>
      obtain ⟨-, -, he, hE⟩ := h c rfl
      simp [readExponent?, he, hE]
  have hhead : ∀ more, (toString n).toList ++ rest ≠ '-' :: more := by
    intro more heq
    rcases hds : (toString n).toList with _ | ⟨d, ds⟩
    · exact Text.toString_ne_nil n hds
    · rw [hds] at heq
      obtain ⟨rfl, -⟩ := List.cons.inj heq
      have := Text.isDigit_of_mem_toString (n := n) (c := '-') (by rw [hds]; simp)
      cases this
  unfold readNumber?
  split
  next sign more heq =>
  split at heq
  · next hminus => exact absurd hminus (hhead _)
  · cases heq
    rw [readWhole?_toString n h]
    simp [hfraction, hexponent]

/-! ## Values -/

/-- A value that can be written and read again: its numbers are natural, and its strings and
keys are texts. -/
inductive Plain : Json → Prop
  | null : Plain .null
  | bool (b : Bool) : Plain (.bool b)
  | number (n : Nat) : Plain (.ofNat n)
  | string (s : String) : Plain (.ofString s)
  | array {items : List Json} (h : ∀ j ∈ items, Plain j) : Plain (.array items)
  | object {members : List (String × Json)} (h : ∀ m ∈ members, Plain m.2) :
      Plain (.ofMembers members)

/-- The value as a list of characters. -/
def text (j : Json) : List Char := j.compact.toList

/-- A member of an object. -/
def memberText (m : String × Json) : List Char := (quote m.1).toList ++ ':' :: text m.2

theorem text_array (items : List Json) :
    text (.array items) = '[' :: ([','].intercalate (items.map text) ++ [']']) := by
  have hitems : (compactItems items).map String.toList = items.map text := by
    induction items with
    | nil => rfl
    | cons j rest ih =>
      rw [compactItems, List.map_cons, ih]
      rfl
  show ("[" ++ ",".intercalate (compactItems items) ++ "]").toList = _
  simp only [String.toList_append, String.toList_intercalate]
  rw [hitems]
  rfl

theorem text_object (members : List (String × Json)) :
    text (.ofMembers members) =
      '\x7b' :: ([','].intercalate (members.map memberText) ++ ['\x7d']) := by
  have hmembers : (compactMembers (members.map fun m => (some m.1, m.2))).map String.toList =
      members.map memberText := by
    induction members with
    | nil => rfl
    | cons m rest ih =>
      rw [List.map_cons, compactMembers, List.map_cons, ih, List.map_cons]
      simp [memberText, text]
  show ("\x7b" ++ ",".intercalate (compactMembers (members.map fun m => (some m.1, m.2))) ++
    "\x7d").toList = _
  simp only [String.toList_append, String.toList_intercalate]
  rw [hmembers]
  rfl

theorem text_ofNat (n : Nat) : text (.ofNat n) = (toString n).toList := String.toList_ofList

theorem exists_toString_eq_cons (n : Nat) :
    ∃ d ds, (toString n).toList = d :: ds ∧ d.isDigit = true := by
  rcases hds : (toString n).toList with _ | ⟨d, ds⟩
  · exact absurd hds (Text.toString_ne_nil n)
  · exact ⟨d, ds, rfl, Text.isDigit_of_mem_toString (n := n) (by rw [hds]; simp)⟩

theorem skipBlanks_digit {d : Char} (h : d.isDigit = true) (rest : List Char) :
    skipBlanks (d :: rest) = d :: rest := by
  have hspace : d ≠ ' ' := by rintro rfl; cases h
  have htab : d ≠ '\t' := by rintro rfl; cases h
  have hfeed : d ≠ '\n' := by rintro rfl; cases h
  have hreturn : d ≠ '\r' := by rintro rfl; cases h
  unfold skipBlanks
  rw [List.dropWhile_cons_of_neg]
  simp [hspace, htab, hfeed, hreturn]

/-- A value starts with a sign that is neither a blank nor the end of an array. -/
theorem Plain.head {j : Json} (h : Plain j) : ∃ c rest, text j = c :: rest ∧
    (∀ more, skipBlanks (c :: more) = c :: more) ∧ c ≠ ']' := by
  cases h with
  | null => exact ⟨_, _, rfl, fun _ => rfl, by decide⟩
  | bool b => cases b <;> exact ⟨_, _, rfl, fun _ => rfl, by decide⟩
  | number n =>
    obtain ⟨d, ds, htext, hdigit⟩ := exists_toString_eq_cons n
    refine ⟨d, ds, (text_ofNat n).trans htext, skipBlanks_digit hdigit, ?_⟩
    rintro rfl
    cases hdigit
  | string s => exact ⟨'"', _, toList_quote s, fun _ => rfl, by decide⟩
  | array => exact ⟨_, _, text_array _, fun _ => rfl, by decide⟩
  | object => exact ⟨_, _, text_object _, fun _ => rfl, by decide⟩

/-! ## Reading what was written -/

/-- The value is read from its text, with what follows it left over. Each call of the reader
takes at most half a character. -/
def ReadsBack (j : Json) : Prop :=
  ∀ fuel rest, 2 * (text j).length ≤ fuel → EndsNumber rest →
    readPart? fuel .value (text j ++ rest) = some (.value j, rest)

theorem readPart?_digit {d : Char} (h : d.isDigit = true) (fuel : Nat) (rest : List Char) :
    readPart? (fuel + 1) .value (d :: rest) =
      (readNumber? (d :: rest)).map fun (literal, rest) => (.value (.number literal), rest) := by
  have hother : ∀ c : Char, c.isDigit = false → d ≠ c := by
    rintro c hc rfl
    rw [hc] at h
    cases h
  rw [readPart?, skipBlanks_digit h]
  split
  case h_7 => rfl
  all_goals
    next heq => exact absurd (List.cons.inj heq).1 (hother _ rfl)

theorem readsBack_ofNat (n : Nat) : ReadsBack (.ofNat n) := by
  intro fuel rest hfuel hrest
  have hread := readNumber?_toString n hrest
  obtain ⟨d, ds, htext, hdigit⟩ := exists_toString_eq_cons n
  rw [text_ofNat, htext] at hfuel ⊢
  rw [htext, List.cons_append] at hread
  rcases fuel with _ | fuel
  · simp at hfuel
  rw [List.cons_append, readPart?_digit hdigit, hread, Option.map_some, ← htext]
  rfl

theorem readsBack_ofString (s : String) : ReadsBack (.ofString s) := by
  intro fuel rest hfuel _
  have htext : text (.ofString s) ++ rest =
      '"' :: (s.toList.flatMap escapeChar ++ '"' :: rest) := by
    show (quote s).toList ++ rest = _
    rw [toList_quote]
    simp
  rw [htext]
  rcases fuel with _ | fuel
  · have hempty : text (.ofString s) = [] := by
      rw [← List.length_eq_zero_iff]
      omega
    rw [show text (.ofString s) = (quote s).toList from rfl, toList_quote] at hempty
    cases hempty
  show (readString? (s.toList.flatMap escapeChar ++ '"' :: rest)).map _ = _
  rw [readString?_written]
  rfl

/-! ## Items and members -/

theorem endsNumber_cons {c : Char} (h : c = ',' ∨ c = ']' ∨ c = '\x7d') (rest : List Char) :
    EndsNumber (c :: rest) := by
  intro c' hc'
  cases hc'
  rcases h with rfl | rfl | rfl <;> decide

section Item

variable {j : Json} {fuel : Nat} {rest : List Char} (hplain : Plain j) (hread : ReadsBack j)
  (hfuel : 2 * (text j).length ≤ fuel) (first : Bool)

include hplain hread hfuel

theorem readPart?_lastItem :
    readPart? (fuel + 1) (.items first) (text j ++ ']' :: rest) = some (.items [j], rest) := by
  obtain ⟨c, more, htext, hblank, hclose⟩ := hplain.head
  have hvalue := hread fuel (']' :: rest) hfuel (endsNumber_cons (by simp) rest)
  rw [htext, List.cons_append] at hvalue ⊢
  rw [readPart?, hblank, hvalue]
  · rfl
  · intro _ _ h
    rw [hblank] at h
    exact hclose (List.cons.inj h).1

theorem readPart?_nextItems {js : List Json} {rest' : List Char}
    (hmore : readPart? fuel (.items false) rest = some (.items js, rest')) :
    readPart? (fuel + 1) (.items first) (text j ++ ',' :: rest) =
      some (.items (j :: js), rest') := by
  obtain ⟨c, more, htext, hblank, hclose⟩ := hplain.head
  have hvalue := hread fuel (',' :: rest) hfuel (endsNumber_cons (by simp) rest)
  have hcomma : skipBlanks (',' :: rest) = ',' :: rest := rfl
  rw [htext, List.cons_append] at hvalue ⊢
  rw [readPart?, hblank, hvalue]
  · simp only [hcomma, hmore]
  · intro _ _ h
    rw [hblank] at h
    exact hclose (List.cons.inj h).1

end Item

/-- Items are read up to the end of their array. -/
theorem readPart?_items (items : List Json) (j : Json)
    (h : ∀ x ∈ j :: items, Plain x ∧ ReadsBack x) :
    ∀ first fuel rest, 2 * ([','].intercalate ((j :: items).map text)).length + 2 ≤ fuel →
      readPart? fuel (.items first) ([','].intercalate ((j :: items).map text) ++ ']' :: rest) =
        some (.items (j :: items), rest) := by
  induction items generalizing j with
  | nil =>
    intro first fuel rest hfuel
    obtain ⟨hplain, hread⟩ := h j List.mem_cons_self
    have hone : [','].intercalate ([j].map text) = text j := by simp
    rw [hone] at hfuel ⊢
    obtain ⟨fuel, rfl⟩ := Nat.exists_eq_succ_of_ne_zero (by omega : fuel ≠ 0)
    exact readPart?_lastItem hplain hread (by omega) first
  | cons k items ih =>
    intro first fuel rest hfuel
    rw [List.forall_mem_cons] at h
    obtain ⟨⟨hplain, hread⟩, hitems⟩ := h
    have hmore : [','].intercalate ((j :: k :: items).map text) =
        text j ++ ',' :: [','].intercalate ((k :: items).map text) := by
      rw [List.map_cons, List.map_cons, List.intercalate_cons_cons, List.append_assoc]
      rfl
    rw [hmore] at hfuel ⊢
    rw [List.length_append, List.length_cons] at hfuel
    obtain ⟨fuel, rfl⟩ := Nat.exists_eq_succ_of_ne_zero (by omega : fuel ≠ 0)
    rw [List.append_assoc, List.cons_append]
    exact readPart?_nextItems hplain hread (by omega) first
      (ih k hitems false fuel rest (by omega))

section Member

variable {m : String × Json} {fuel : Nat} {rest : List Char} (hread : ReadsBack m.2)
  (hfuel : 2 * (memberText m).length ≤ fuel) (first : Bool)

theorem memberText_append (m : String × Json) (rest : List Char) : memberText m ++ rest =
    '"' :: (m.1.toList.flatMap escapeChar ++ '"' :: ':' :: (text m.2 ++ rest)) := by
  unfold memberText
  rw [toList_quote]
  simp

theorem length_text_le (m : String × Json) : (text m.2).length ≤ (memberText m).length := by
  unfold memberText
  rw [List.length_append, List.length_cons]
  omega

theorem skipBlanks_of_sign {c : Char} (h : c ∈ ['"', ':', ',', '\x7d']) (rest : List Char) :
    skipBlanks (c :: rest) = c :: rest := by
  simp only [List.mem_cons, List.not_mem_nil, or_false] at h
  rcases h with rfl | rfl | rfl | rfl <;> rfl

include hread hfuel

theorem readPart?_lastMember :
    readPart? (fuel + 1) (.members first) (memberText m ++ '\x7d' :: rest) =
      some (.members [(some m.1, m.2)], rest) := by
  have hlength := length_text_le m
  have hvalue := hread fuel ('\x7d' :: rest) (by omega) (endsNumber_cons (by simp) rest)
  rw [memberText_append, readPart?.eq_def]
  simp only [skipBlanks_of_sign, List.mem_cons, true_or, or_true, readString?_written, hvalue]

theorem readPart?_nextMembers {ms : List (Option String × Json)} {rest' : List Char}
    (hmore : readPart? fuel (.members false) rest = some (.members ms, rest')) :
    readPart? (fuel + 1) (.members first) (memberText m ++ ',' :: rest) =
      some (.members ((some m.1, m.2) :: ms), rest') := by
  have hlength := length_text_le m
  have hvalue := hread fuel (',' :: rest) (by omega) (endsNumber_cons (by simp) rest)
  rw [memberText_append, readPart?.eq_def]
  simp only [skipBlanks_of_sign, List.mem_cons, true_or, or_true, readString?_written, hvalue,
    hmore]

end Member

/-- Members are read up to the end of their object. -/
theorem readPart?_members (members : List (String × Json)) (m : String × Json)
    (h : ∀ x ∈ m :: members, ReadsBack x.2) :
    ∀ first fuel rest, 2 * ([','].intercalate ((m :: members).map memberText)).length + 2 ≤ fuel →
      readPart? fuel (.members first)
          ([','].intercalate ((m :: members).map memberText) ++ '\x7d' :: rest) =
        some (.members ((m :: members).map fun m => (some m.1, m.2)), rest) := by
  induction members generalizing m with
  | nil =>
    intro first fuel rest hfuel
    have hone : [','].intercalate ([m].map memberText) = memberText m := by simp
    rw [hone] at hfuel ⊢
    obtain ⟨fuel, rfl⟩ := Nat.exists_eq_succ_of_ne_zero (by omega : fuel ≠ 0)
    exact readPart?_lastMember (h m List.mem_cons_self) (by omega) first
  | cons m' members ih =>
    intro first fuel rest hfuel
    rw [List.forall_mem_cons] at h
    obtain ⟨hread, hmembers⟩ := h
    have hmore : [','].intercalate ((m :: m' :: members).map memberText) =
        memberText m ++ ',' :: [','].intercalate ((m' :: members).map memberText) := by
      rw [List.map_cons, List.map_cons, List.intercalate_cons_cons, List.append_assoc]
      rfl
    rw [hmore] at hfuel ⊢
    rw [List.length_append, List.length_cons] at hfuel
    obtain ⟨fuel, rfl⟩ := Nat.exists_eq_succ_of_ne_zero (by omega : fuel ≠ 0)
    rw [List.append_assoc, List.cons_append]
    exact readPart?_nextMembers hread (by omega) first
      (ih m' hmembers false fuel rest (by omega))

/-! ## Whole values -/

theorem readPart?_array {fuel : Nat} {t rest : List Char} {js : List Json}
    (h : readPart? fuel (.items true) t = some (.items js, rest)) :
    readPart? (fuel + 1) .value ('[' :: t) = some (.value (.array js), rest) := by
  have hblanks : skipBlanks ('[' :: t) = '[' :: t := rfl
  simp only [readPart?, hblanks, h]

theorem readPart?_object {fuel : Nat} {t rest : List Char} {ms : List (Option String × Json)}
    (h : readPart? fuel (.members true) t = some (.members ms, rest)) :
    readPart? (fuel + 1) .value ('\x7b' :: t) = some (.value (.object ms), rest) := by
  have hblanks : skipBlanks ('\x7b' :: t) = '\x7b' :: t := rfl
  simp only [readPart?, hblanks, h]

theorem Plain.readsBack {j : Json} (h : Plain j) : ReadsBack j := by
  induction h with
  | null =>
    rintro (_ | fuel) rest hfuel _
    · exact absurd hfuel (by decide)
    · rfl
  | bool b =>
    rintro (_ | fuel) rest hfuel _
    · cases b <;> exact absurd hfuel (by decide)
    · cases b <;> rfl
  | number n => exact readsBack_ofNat n
  | string s => exact readsBack_ofString s
  | @array items h ih =>
    intro fuel rest hfuel _
    rw [text_array, List.length_cons, List.length_append, List.length_singleton] at hfuel
    rw [text_array, List.cons_append, List.append_assoc, List.singleton_append]
    obtain ⟨fuel, rfl⟩ := Nat.exists_eq_add_of_le' (by omega : 2 ≤ fuel)
    apply readPart?_array
    cases items with
    | nil => rfl
    | cons j items =>
      exact readPart?_items items j (fun x hx => ⟨h x hx, ih x hx⟩) true _ rest (by omega)
  | @object members h ih =>
    intro fuel rest hfuel _
    rw [text_object, List.length_cons, List.length_append, List.length_singleton] at hfuel
    rw [text_object, List.cons_append, List.append_assoc, List.singleton_append]
    obtain ⟨fuel, rfl⟩ := Nat.exists_eq_add_of_le' (by omega : 2 ≤ fuel)
    apply readPart?_object
    cases members with
    | nil => rfl
    | cons m members => exact readPart?_members members m ih true _ rest (by omega)

/-- A plain value is read from the line that it is written on. -/
theorem read?_compact {j : Json} (h : Plain j) : read? j.compact = some j := by
  have hread := h.readsBack (2 * j.compact.toList.length + 2) []
    (Nat.le_add_right _ _) (by intro c hc; cases hc)
  rw [List.append_nil] at hread
  have hread' : readPart? (2 * j.compact.toList.length + 2) .value j.compact.toList =
      some (.value j, []) := hread
  unfold read?
  rw [hread']
  rfl

end StableNames.Json
