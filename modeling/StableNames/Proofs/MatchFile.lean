-- Files of matches. A file of blocks is read as the pairs of its blocks,
-- in order, whatever lines without the tag of a match stand among them. A
-- faulty line ends the reading, and all that stands before it was read.
import StableNames.Matches
import StableNames.Proofs.Text.Reading

namespace StableNames

namespace Text

/-! ## Columns and first lines -/

theorem splitOn_cons_mark (mark : Char) (text : List Char) :
    (mark :: text).splitOn mark = [] :: text.splitOn mark := by
  rw [List.splitOn_cons_eq_if_modifyHead, if_pos (beq_self_eq_true mark)]

theorem splitOn_cons_of_ne {mark c : Char} (h : c ≠ mark) (text : List Char) :
    (c :: text).splitOn mark = (text.splitOn mark).modifyHead (c :: ·) := by
  rw [List.splitOn_cons_eq_if_modifyHead, if_neg (by simpa using h)]

theorem lines_eq_nil {text : List Char} (h : lines text = []) : text = [] := by
  unfold lines at h
  split at h
  · rfl
  · cases h
  · cases h
  · split at h <;> cases h

/-- The first lines of a text are the lines of a text that it starts with. -/
theorem exists_prefix_lines (text : List Char) {k : Nat} (hk : k ≤ (lines text).length) :
    ∃ front, front <+: text ∧ lines front = (lines text).take k := by
  fun_induction lines text generalizing k with
  | case1 => exact ⟨[], List.prefix_rfl, by simp [lines]⟩
  | case2 rest ih =>
    cases k with
    | zero => exact ⟨[], List.nil_prefix, rfl⟩
    | succ k =>
      obtain ⟨front, hfront, hlines⟩ := ih (Nat.le_of_succ_le_succ hk)
      refine ⟨'\n' :: front, by simpa using hfront, ?_⟩
      rw [lines, hlines, List.take_succ_cons]
  | case3 rest ih =>
    cases k with
    | zero => exact ⟨[], List.nil_prefix, rfl⟩
    | succ k =>
      obtain ⟨front, hfront, hlines⟩ := ih (Nat.le_of_succ_le_succ hk)
      refine ⟨'\r' :: '\n' :: front, by simpa using hfront, ?_⟩
      rw [lines, hlines, List.take_succ_cons]
  | case4 c rest hn hr hnil ih =>
    obtain rfl := lines_eq_nil hnil
    rcases Nat.le_one_iff_eq_zero_or_eq_one.1 hk with rfl | rfl
    · exact ⟨[], List.nil_prefix, rfl⟩
    · exact ⟨[c], List.prefix_rfl, by rw [lines.eq_4 _ _ hn hr]; rfl⟩
  | case5 c rest hn hr line more hcons ih =>
    cases k with
    | zero => exact ⟨[], List.nil_prefix, rfl⟩
    | succ k =>
      obtain ⟨front, hfront, hlines⟩ := @ih (k + 1) (by rw [hcons]; exact hk)
      rw [hcons, List.take_succ_cons] at hlines
      refine ⟨c :: front, by simpa using hfront, ?_⟩
      rw [lines.eq_4 _ _ hn ?_, hlines]
      · rfl
      · -- a line feed at the start of `front` is one at the start of `rest`
        rintro later hc rfl
        obtain ⟨after, rfl⟩ := hfront
        exact hr _ hc rfl

end Text

namespace Matches

/-! ## Blocks -/

/-- The two ways to write a class: its bare name, or between L and a semicolon. -/
inductive ClassForm where
  | bare
  | framed
deriving DecidableEq, Repr

/-- A class as it is written. -/
def ClassForm.token (form : ClassForm) (name : String) : List Char :=
  match form with
  | .bare => name.toList
  | .framed => 'L' :: name.toList ++ [';']

/-- A field or method inside a block: its owner is the class of the block. -/
structure Signature where
  name : String
  desc : String
deriving DecidableEq, Repr

/-- A member of the old class of a block and one of the new class. -/
inductive MemberPair where
  | ofMethod (old new : Signature)
  | ofField (old new : Signature)
deriving DecidableEq, Repr

/-- A pair of classes, each as it is written, and the pairs of their members. -/
structure ClassBlock where
  oldForm : ClassForm := .framed
  newForm : ClassForm := .framed
  old : String
  new : String
  members : List MemberPair := []
deriving DecidableEq, Repr

def Signature.methodToken (s : Signature) : List Char := s.name.toList ++ s.desc.toList

def Signature.fieldToken (s : Signature) : List Char := s.name.toList ++ ';' :: ';' :: s.desc.toList

/-- The columns of the line of a pair of members. -/
def MemberPair.columns : MemberPair → List (List Char)
  | .ofMethod old new => [[], ['m'], old.methodToken, new.methodToken]
  | .ofField old new => [[], ['f'], old.fieldToken, new.fieldToken]

/-- The columns of the lines of a block. -/
def ClassBlock.rows (b : ClassBlock) : List (List (List Char)) :=
  [['c'], b.oldForm.token b.old, b.newForm.token b.new] :: b.members.map MemberPair.columns

/-- The columns put into a line, without its end. -/
def row (columns : List (List Char)) : List Char := ['\t'].intercalate columns

/-- The match of two members whose classes are `old` and `new`. -/
def MemberPair.toMatch (old new : String) : MemberPair → Match
  | .ofMethod s t => .ofMethod ⟨old, s.name, s.desc⟩ ⟨new, t.name, t.desc⟩
  | .ofField s t => .ofField ⟨old, s.name, s.desc⟩ ⟨new, t.name, t.desc⟩

/-- The matches of a block, in order. -/
def ClassBlock.pairs (b : ClassBlock) : List Match :=
  .ofClass b.old b.new :: b.members.map (·.toMatch b.old b.new)

/-- Whether a line has the tag of a match: `c` in its first column, and not alone there, or
`m` or `f` behind an empty first column. Blank lines have none. -/
def isTagged (line : List Char) : Bool :=
  match line.splitOn '\t' with
  | ['c'] :: _ :: _ | [] :: ['m'] :: _ | [] :: ['f'] :: _ => true
  | _ => false

/-- The text has the lines of the blocks, in order, among lines without a tag. -/
def Renders (blocks : List ClassBlock) (text : String) : Prop :=
  (Text.lines text.toList).filter isTagged = blocks.flatMap fun b => b.rows.map row

/-! ## Names that can stand in a block -/

/-- A class that can be read in both of its forms. -/
structure PlainClass (name : String) : Prop where
  ne_empty : name ≠ ""
  no_end : ';' ∉ name.toList
  no_tab : '\t' ∉ name.toList

structure PlainMethod (s : Signature) : Prop where
  ne_empty : s.name ≠ ""
  no_start : '(' ∉ s.name.toList
  starts : s.desc.toList.head? = some '('
  no_tab : '\t' ∉ s.name.toList ∧ '\t' ∉ s.desc.toList

structure PlainField (s : Signature) : Prop where
  name_ne_empty : s.name ≠ ""
  desc_ne_empty : s.desc ≠ ""
  no_end : ';' ∉ s.name.toList
  no_tab : '\t' ∉ s.name.toList ∧ '\t' ∉ s.desc.toList

def MemberPair.Plain : MemberPair → Prop
  | .ofMethod old new => PlainMethod old ∧ PlainMethod new
  | .ofField old new => PlainField old ∧ PlainField new

structure ClassBlock.Plain (b : ClassBlock) : Prop where
  old : PlainClass b.old
  new : PlainClass b.new
  members : ∀ p ∈ b.members, p.Plain

/-! ## Reading one line -/

theorem splitOn_row {columns : List (List Char)} (hne : columns ≠ [])
    (h : ∀ column ∈ columns, '\t' ∉ column) : (row columns).splitOn '\t' = columns :=
  List.splitOn_intercalate _ h hne

theorem row_cons_cons (first second : List Char) (columns : List (List Char)) :
    row (first :: second :: columns) = first ++ '\t' :: row (second :: columns) := by
  simp [row, List.intercalate_cons_cons]

theorem splitFirst?_append {c : Char} {piece before rest : List Char} (h : c ∉ before) :
    Text.splitFirst? (c :: piece) (before ++ (c :: piece ++ rest)) = some (before, rest) := by
  induction before with
  | nil => rw [List.nil_append, List.cons_append, Text.splitFirst?, ← List.cons_append,
      Text.after?_append]
  | cons d before ih =>
    rw [List.mem_cons, not_or] at h
    rw [List.cons_append, Text.splitFirst?, Text.after?, if_neg h.1, ih h.2]
    rfl

section Tokens

variable {name : String} {s : Signature}

theorem className_token (h : PlainClass name) (form : ClassForm) :
    className (form.token name) = name := by
  cases form with
  | bare =>
    show className name.toList = name
    unfold className
    split
    · rename_i rest heq
      rw [if_neg, String.ofList_toList]
      intro hlast
      exact h.no_end (heq ▸ List.mem_cons_of_mem _ (List.mem_of_getLast? hlast))
    · exact String.ofList_toList
  | framed => simp [className, ClassForm.token]

theorem token_ne_nil (h : PlainClass name) (form : ClassForm) : form.token name ≠ [] := by
  cases form with
  | bare => simpa [ClassForm.token] using h.ne_empty
  | framed => simp [ClassForm.token]

theorem tab_not_mem_token (h : PlainClass name) (form : ClassForm) : '\t' ∉ form.token name := by
  cases form with
  | bare => exact h.no_tab
  | framed => simpa [ClassForm.token] using h.no_tab

theorem splitMethod?_methodToken (h : PlainMethod s) :
    splitMethod? s.methodToken = some (s.name, s.desc) := by
  obtain ⟨rest, hdesc⟩ := List.head?_eq_some_iff.1 h.starts
  have hname : s.name.toList.isEmpty = false := by simpa using h.ne_empty
  have hsplit : Text.splitFirst? ['('] (s.name.toList ++ '(' :: rest) =
      some (s.name.toList, rest) := splitFirst?_append h.no_start
  unfold splitMethod? Signature.methodToken
  rw [hdesc, hsplit]
  simp only [hname, Bool.false_eq_true, if_false, String.ofList_toList, ← hdesc]

theorem splitField?_fieldToken (h : PlainField s) :
    splitField? s.fieldToken = some (s.name, s.desc) := by
  have hempty : (s.name.toList.isEmpty || s.desc.toList.isEmpty) = false := by
    simpa using ⟨h.name_ne_empty, h.desc_ne_empty⟩
  have hsplit : Text.splitFirst? [';', ';'] (s.name.toList ++ ';' :: ';' :: s.desc.toList) =
      some (s.name.toList, s.desc.toList) := splitFirst?_append h.no_end
  unfold splitField? Signature.fieldToken
  rw [hsplit]
  simp only [hempty, Bool.false_eq_true, if_false, String.ofList_toList]

end Tokens

/-- A line without a tag is passed over. -/
theorem readLine_of_not_tagged {line : List Char} (h : isTagged line = false) (block : Block) :
    readLine block line = .ok none := by
  unfold isTagged at h
  unfold readLine
  split
  · rfl
  · split
    · rename_i rest _
      rw [Text.splitOn_cons_of_ne (by decide), Text.splitOn_cons_mark] at h
      obtain ⟨column, columns, hcolumns⟩ := List.exists_cons_of_ne_nil
        (List.splitOn_ne_nil '\t' rest)
      rw [hcolumns] at h
      cases h
    · rw [Text.splitOn_cons_mark] at h
      split
      · rename_i heq
        rw [heq] at h
        cases h
      · rename_i heq
        rw [heq] at h
        cases h
      · rfl
    · rfl

theorem readLine_of_columns {c : Char} {line : List Char} (hc : c ∈ line)
    (hblank : Text.isBlank c = false) : (Text.trim line).isEmpty = false := by
  rw [List.isEmpty_eq_false_iff]
  exact Text.trim_ne_nil hc hblank

theorem readLine_class {b : ClassBlock} (h : b.Plain) (block : Block) :
    readLine block (row [['c'], b.oldForm.token b.old, b.newForm.token b.new]) =
      .ok (some (.ofClass b.old b.new)) := by
  have hsplit : (row [b.oldForm.token b.old, b.newForm.token b.new]).splitOn '\t' =
      [b.oldForm.token b.old, b.newForm.token b.new] := by
    apply splitOn_row (by simp)
    simp only [List.forall_mem_cons]
    exact ⟨tab_not_mem_token h.old _, tab_not_mem_token h.new _, by simp⟩
  have hempty : ((b.oldForm.token b.old).isEmpty || (b.newForm.token b.new).isEmpty) = false := by
    simpa using ⟨token_ne_nil h.old _, token_ne_nil h.new _⟩
  unfold readLine
  rw [row_cons_cons, readLine_of_columns (c := 'c') (by simp) (by decide)]
  simp only [Bool.false_eq_true, if_false, List.cons_append, List.nil_append]
  rw [hsplit]
  unfold readClass
  simp only [hempty, Bool.false_eq_true, if_false, className_token h.old, className_token h.new]

theorem readLine_member {p : MemberPair} (h : p.Plain) (old new : String) :
    readLine (some (old, new)) (row p.columns) = .ok (some (p.toMatch old new)) := by
  have hcolumns : ∀ tag first second : List Char, '\t' ∉ tag → '\t' ∉ first → '\t' ∉ second →
      (row [tag, first, second]).splitOn '\t' = [tag, first, second] := by
    intro tag first second htag hfirst hsecond
    exact splitOn_row (by simp) (by simp [htag, hfirst, hsecond])
  cases p with
  | ofMethod s t =>
    obtain ⟨hs, ht⟩ := h
    have hsplit := hcolumns ['m'] s.methodToken t.methodToken (by decide)
      (by simp [Signature.methodToken, hs.no_tab]) (by simp [Signature.methodToken, ht.no_tab])
    unfold readLine MemberPair.columns
    rw [row_cons_cons, readLine_of_columns (c := 'm') (by simp [row]) (by decide)]
    simp only [Bool.false_eq_true, if_false, List.nil_append]
    rw [hsplit]
    unfold readMember
    simp only [splitMethod?_methodToken hs, splitMethod?_methodToken ht, MemberPair.toMatch]
  | ofField s t =>
    obtain ⟨hs, ht⟩ := h
    have hsplit := hcolumns ['f'] s.fieldToken t.fieldToken (by decide)
      (by simp [Signature.fieldToken, hs.no_tab]) (by simp [Signature.fieldToken, ht.no_tab])
    unfold readLine MemberPair.columns
    rw [row_cons_cons, readLine_of_columns (c := 'f') (by simp [row]) (by decide)]
    simp only [Bool.false_eq_true, if_false, List.nil_append]
    rw [hsplit]
    unfold readMember
    simp only [splitField?_fieldToken hs, splitField?_fieldToken ht, MemberPair.toMatch]

/-! ## Reading all lines -/

variable {source : String} {number : Nat} {block : Block} {ls : List (List Char)}

/-- A line that holds a match puts it before those of the lines after it. -/
theorem readLines_cons_some {line : List Char} {m : Match} (h : readLine block line = .ok (some m))
    (rest : List (List Char)) :
    readLines source number block (line :: rest) =
      ⟨m :: (readLines source (number + 1) (blockAfter block (some m)) rest).pairs,
        (readLines source (number + 1) (blockAfter block (some m)) rest).fault?⟩ := by
  rw [readLines, h]
  rfl

theorem readLines_cons_none {line : List Char} (h : readLine block line = .ok none)
    (rest : List (List Char)) :
    readLines source number block (line :: rest) = readLines source (number + 1) block rest := by
  rw [readLines, h]
  rfl

/-- If the lines with a tag are read without a fault, then all lines are read like them. -/
theorem readLines_eq_filter (number' : Nat)
    (h : (readLines source number' block (ls.filter isTagged)).fault? = none) :
    readLines source number block ls = readLines source number' block (ls.filter isTagged) := by
  induction ls generalizing number number' block with
  | nil => rfl
  | cons line rest ih =>
    rcases htag : isTagged line with _ | _
    · rw [List.filter_cons_of_neg (by simp [htag])] at h ⊢
      rw [readLines_cons_none (readLine_of_not_tagged htag block), ih _ h]
    · rw [List.filter_cons_of_pos htag] at h ⊢
      rcases hline : readLine block line with fault | _ | m
      · rw [readLines, hline] at h
        cases h
      · rw [readLines_cons_none hline] at h ⊢
        rw [readLines_cons_none hline, ih _ h]
      · rw [readLines_cons_some hline] at h ⊢
        rw [readLines_cons_some hline, ih _ h]

theorem readLines_members {old new : String} {members : List MemberPair}
    (h : ∀ p ∈ members, p.Plain) {pairs : List Match}
    (hrest : ∀ number, readLines source number (some (old, new)) ls = ⟨pairs, none⟩) :
    readLines source number (some (old, new)) (members.map (row ·.columns) ++ ls) =
      ⟨members.map (·.toMatch old new) ++ pairs, none⟩ := by
  induction members generalizing number with
  | nil => exact hrest number
  | cons p members ih =>
    obtain ⟨hp, hmembers⟩ := List.forall_mem_cons.1 h
    have hblock : blockAfter (some (old, new)) (some (p.toMatch old new)) = some (old, new) := by
      cases p <;> rfl
    rw [List.map_cons, List.cons_append, readLines_cons_some (readLine_member hp old new), hblock,
      ih hmembers]
    rfl

/-- The lines of blocks hold the matches of the blocks, whatever block was open before. -/
theorem readLines_blocks {blocks : List ClassBlock} (h : ∀ b ∈ blocks, b.Plain) :
    readLines source number block (blocks.flatMap fun b => b.rows.map row) =
      ⟨blocks.flatMap ClassBlock.pairs, none⟩ := by
  induction blocks generalizing number block with
  | nil => rfl
  | cons b blocks ih =>
    obtain ⟨hb, hblocks⟩ := List.forall_mem_cons.1 h
    have hrest := fun number => @ih number (some (b.old, b.new)) hblocks
    rw [List.flatMap_cons, List.flatMap_cons, ClassBlock.rows, List.map_cons, List.map_map,
      List.cons_append, readLines_cons_some (readLine_class hb block)]
    have hmembers := @readLines_members source (number + 1) _ b.old b.new b.members hb.members _
      hrest
    unfold blockAfter
    rw [Function.comp_def, hmembers]
    rfl

/-- A fault is that of a line, and the lines before it are read to their end. -/
theorem exists_faulty_line {problem : Problem}
    (h : (readLines source number block ls).fault? = some problem) :
    ∃ k fault, k < ls.length ∧ problem = .format source (number + k) fault ∧
      readLines source number block (ls.take k) =
        ⟨(readLines source number block ls).pairs, none⟩ := by
  induction ls generalizing number block with
  | nil => cases h
  | cons line rest ih =>
    rcases hline : readLine block line with fault | _ | m
    · rw [readLines, hline] at h ⊢
      cases h
      exact ⟨0, fault, Nat.succ_pos _, rfl, rfl⟩
    · rw [readLines_cons_none hline] at h ⊢
      obtain ⟨k, fault, hk, rfl, hread⟩ := ih h
      refine ⟨k + 1, fault, Nat.succ_lt_succ hk, by rw [Nat.add_right_comm]; rfl, ?_⟩
      rw [List.take_succ_cons, readLines_cons_none hline, hread]
    · rw [readLines_cons_some hline] at h ⊢
      obtain ⟨k, fault, hk, rfl, hread⟩ := ih h
      refine ⟨k + 1, fault, Nat.succ_lt_succ hk, by rw [Nat.add_right_comm]; rfl, ?_⟩
      rw [List.take_succ_cons, readLines_cons_some hline, hread]

theorem read_eq (source text : String) (swapped : Bool) :
    read source text swapped =
      ⟨(readLines source 1 none (Text.lines text.toList)).pairs.map
          (if swapped then Match.swap else id),
        (readLines source 1 none (Text.lines text.toList)).fault?⟩ := by
  cases swapped with
  | false => simp [read]
  | true => rfl

theorem count_eq_error {found : Matches} {problem : Problem} :
    found.count = .error problem ↔ found.fault? = some problem := by
  unfold count
  rcases found.fault? with _ | _ <;> simp

/-- A file of blocks gives the matches of its blocks, in order, and their number. Any text gives
the same from the other side with the two sides of each match changed. If a line is faulty, then
what the text gives are the matches of the lines before it, which are read without a fault. -/
theorem every_match_before_a_fault_is_read (source : String) :
    (∀ (blocks : List ClassBlock) (text : String), (∀ b ∈ blocks, b.Plain) →
      Renders blocks text →
      (read source text false).pairs = blocks.flatMap ClassBlock.pairs ∧
      (read source text false).count = .ok (blocks.flatMap ClassBlock.pairs).length) ∧
    (∀ text, (read source text true).pairs = (read source text false).pairs.map Match.swap ∧
      (read source text true).count = (read source text false).count) ∧
    ∀ text swapped problem, (read source text swapped).count = .error problem →
      ∃ number fault front, problem = .format source number fault ∧
        1 ≤ number ∧ number ≤ (Text.lines text.toList).length ∧
        front <+: text.toList ∧
        Text.lines front = (Text.lines text.toList).take (number - 1) ∧
        read source (String.ofList front) swapped = ⟨(read source text swapped).pairs, none⟩ := by
  refine ⟨?blocks, ?sides, ?fault⟩
  case blocks =>
    intro blocks text hplain hrenders
    have hread : read source text false = ⟨blocks.flatMap ClassBlock.pairs, none⟩ := by
      have hblocks := @readLines_blocks source 1 none blocks hplain
      rw [← hrenders] at hblocks
      rw [read_eq, readLines_eq_filter 1 (by rw [hblocks]), hblocks]
      simp
    rw [hread]
    exact ⟨rfl, rfl⟩
  case sides =>
    intro text
    rw [read_eq, read_eq]
    simp [count]
  case fault =>
    intro text swapped problem h
    rw [count_eq_error, read_eq] at h
    obtain ⟨k, fault, hk, rfl, hread⟩ := exists_faulty_line h
    obtain ⟨front, hfront, hlines⟩ := Text.exists_prefix_lines text.toList (Nat.le_of_lt hk)
    refine ⟨1 + k, fault, front, rfl, by omega, by omega, hfront, ?_, ?_⟩
    · rw [hlines, Nat.add_sub_cancel_left]
    · rw [read_eq, read_eq, String.toList_ofList, hlines, hread]

/-- A block with a framed and a bare class. -/
def matchedBlock : ClassBlock where
  newForm := .bare
  old := "a"
  new := "x/Lb"
  members := [.ofMethod ⟨"a", "()V"⟩ ⟨"b", "(La;)V"⟩, .ofField ⟨"a", "I"⟩ ⟨"c", "[I"⟩]

/-- A file with this block among lines of other kinds. -/
def matchedText : String :=
  "Matches saved 2024-01-01\n\ta:\nc\tLa;\tx/Lb\r\n \n\tm\ta()V\tb(La;)V\n\tma\t1\t1\n" ++
    "\tf\ta;;I\tc;;[I"

/-- The second line of this file has members without descriptors. -/
def faultyText : String := "c\ta\tb\n\tm\tx\ty\n\tm\ta()V\tb()V\n"

theorem every_match_before_a_fault_is_read_framed :
    (∀ b ∈ [matchedBlock], b.Plain) ∧ Renders [matchedBlock] matchedText ∧
    (read "m" matchedText false).pairs = [.ofClass "a" "x/Lb",
      .ofMethod ⟨"a", "a", "()V"⟩ ⟨"x/Lb", "b", "(La;)V"⟩,
      .ofField ⟨"a", "a", "I"⟩ ⟨"x/Lb", "c", "[I"⟩] ∧
    (read "m" faultyText true).count = .error (.format "m" 2 (.malformedMember "m\tx\ty")) ∧
    ∃ front, Text.lines front = (Text.lines faultyText.toList).take 1 ∧
      read "m" (String.ofList front) true = ⟨(read "m" faultyText true).pairs, none⟩ := by
  obtain ⟨hblocks, _, hfault⟩ := every_match_before_a_fault_is_read "m"
  have hplain : ∀ b ∈ [matchedBlock], b.Plain := by
    intro b hb
    obtain rfl := List.mem_singleton.1 hb
    refine ⟨⟨by decide, by decide, by decide⟩, ⟨by decide, by decide, by decide⟩, ?_⟩
    show ∀ p ∈ [_, _], MemberPair.Plain p
    rw [List.forall_mem_cons, List.forall_mem_singleton]
    constructor
    · exact ⟨⟨by decide, by decide, by decide, by decide⟩,
        ⟨by decide, by decide, by decide, by decide⟩⟩
    · exact ⟨⟨by decide, by decide, by decide, by decide⟩,
        ⟨by decide, by decide, by decide, by decide⟩⟩
  have hrenders : Renders [matchedBlock] matchedText := by
    unfold Renders
    cbv
  have hcount : (read "m" faultyText true).count =
      .error (.format "m" 2 (.malformedMember "m\tx\ty")) := by
    cbv
  obtain ⟨number, fault, front, hproblem, _, _, _, hlines, hread⟩ := hfault _ _ _ hcount
  cases hproblem
  exact ⟨hplain, hrenders, (hblocks _ _ hplain hrenders).1, hcount, front, hlines, hread⟩

end Matches

end StableNames
