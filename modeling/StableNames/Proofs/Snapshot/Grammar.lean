-- The grammar of snapshots. A text is a snapshot if it starts with a header
-- and each line below it is blank, a remark, a counter or a record. What is
-- read of a snapshot is what its lines hold, one after another. Of any
-- other text the first line that breaks the grammar is reported.
import Mathlib.Data.List.Forall2
import StableNames.Proofs.Text.Places
import StableNames.Proofs.Text.Reading
import StableNames.Snapshot.Basic

namespace StableNames

variable {count number n : Nat} {source line header kind : String} {c : Category}
  {lines columns names : List String} {e : Entry} {es : List Entry}

/-! ## The grammar -/

/-- A line that keeps the counter of a category: after its start stand two words, the one of
the category and a numeral that fits. -/
inductive KeepsCounter (line : String) (c : Category) (n : Nat) : Prop
  | intro {rest value : List Char} (hstart : line.toList = counterPrefix.toList ++ rest)
      (hwords : Text.words rest = [c.word.toList, value]) (hvalue : Text.IsNumeral value n)
      (hfit : n < Text.wordLimit)

/-- What a line may hold in a snapshot of `count` namespaces. -/
inductive Holds (count : Nat) (line : String) : Entry → Prop
  | blank (h : ∀ c ∈ line.toList, Text.isBlank c = true) : Holds count line .remark
  | remark (hmark : line.toList.head? = some '#')
      (hcounter : ¬ counterPrefix.toList <+: line.toList) : Holds count line .remark
  | counter {c : Category} {n : Nat} (h : KeepsCounter line c n) : Holds count line (.counter c n)
  | ofClass {names : List String} (hcolumns : Text.columnsOf line = "CLASS" :: names)
      (hcount : names.length = count) (hfilled : "" ∉ names) : Holds count line (.ofClass names)
  | ofField {owner desc : String} {names : List String}
      (hcolumns : Text.columnsOf line = "FIELD" :: owner :: desc :: names)
      (hcount : names.length = count) (hfilled : "" ∉ owner :: desc :: names) :
      Holds count line (.ofField ⟨owner, desc, names⟩)
  | ofMethod {owner desc : String} {names : List String}
      (hcolumns : Text.columnsOf line = "METHOD" :: owner :: desc :: names)
      (hcount : names.length = count) (hfilled : "" ∉ owner :: desc :: names) :
      Holds count line (.ofMethod ⟨owner, desc, names⟩)

/-- A first line with its namespaces, of which there are two at least. -/
def IsHeader (header : String) (namespaces : List String) : Prop :=
  Text.columnsOf header = snapshotVersion :: namespaces ∧ 2 ≤ namespaces.length

/-- The lines of a snapshot, with one entry for each line below the header. -/
def IsSnapshot (lines : List String) (s : Snapshot) : Prop :=
  ∃ header body, lines = header :: body ∧ IsHeader header s.namespaces ∧
    List.Forall₂ (Holds s.namespaces.length) body s.entries

/-- The number of the first line that breaks the grammar. -/
inductive BreaksAt (lines : List String) : Nat → Prop
  | header (h : ∀ header body namespaces, lines = header :: body → ¬ IsHeader header namespaces) :
      BreaksAt lines 1
  | body {header line : String} {namespaces before after : List String}
      (hlines : lines = header :: (before ++ line :: after)) (hheader : IsHeader header namespaces)
      (hbefore : ∀ l ∈ before, ∃ e, Holds namespaces.length l e)
      (hline : ∀ e, ¬ Holds namespaces.length line e) : BreaksAt lines (before.length + 2)

/-! ## Counters -/

theorem Category.ofWord?_eq_some {word : String} :
    Category.ofWord? word = some c ↔ word = c.word := by
  constructor
  · intro h
    unfold ofWord? at h
    have hword := List.find?_some h
    exact (of_decide_eq_true hword).symm
  · rintro rfl
    exact ofWord?_word c

theorem readCounterWords_eq_ok {words : List (List Char)} :
    readCounterWords line words = .ok (c, n) ↔
      ∃ value, words = [c.word.toList, value] ∧ Text.IsNumeral value n ∧ n < Text.wordLimit := by
  constructor
  · intro h
    unfold readCounterWords at h
    split at h
    · next word value =>
      split at h
      · cases h
      · next category hword =>
        split at h
        · next k hvalue =>
          obtain ⟨rfl, rfl⟩ := Prod.mk.inj (Except.ok.inj h)
          have hword : String.ofList word = category.word := Category.ofWord?_eq_some.1 hword
          refine ⟨value, ?_, Text.readNumeral_eq_ok.1 hvalue⟩
          rw [← hword, String.toList_ofList]
        · cases h
    · cases h
  · rintro ⟨value, rfl, hvalue⟩
    unfold readCounterWords
    simp only [String.ofList_toList, Category.ofWord?_word, Text.readNumeral_eq_ok.2 hvalue]

theorem readCounterLine_eq_ok :
    readCounterLine line = some (.ok (c, n)) ↔ KeepsCounter line c n := by
  unfold readCounterLine
  rw [Option.map_eq_some_iff]
  constructor
  · rintro ⟨rest, hrest, h⟩
    obtain ⟨value, hwords, hvalue, hfit⟩ := readCounterWords_eq_ok.1 h
    exact ⟨Text.after?_eq_some.1 hrest, hwords, hvalue, hfit⟩
  · rintro ⟨hstart, hwords, hvalue, hfit⟩
    exact ⟨_, Text.after?_eq_some.2 hstart, readCounterWords_eq_ok.2 ⟨_, hwords, hvalue, hfit⟩⟩

/-- Lines that do not start like a counter say nothing about one. -/
theorem readCounterLine_eq_none_iff :
    readCounterLine line = none ↔ ¬ counterPrefix.toList <+: line.toList := by
  unfold readCounterLine
  rw [Option.map_eq_none_iff, Option.eq_none_iff_forall_not_mem]
  constructor
  · rintro h ⟨rest, hrest⟩
    exact h rest (Text.after?_eq_some.2 hrest.symm)
  · intro h rest hrest
    exact h ⟨rest, (Text.after?_eq_some.1 hrest).symm⟩

/-! ## Records -/

theorem readColumns_eq_ok {needed : Nat} {filled : List String} :
    readColumns kind needed columns = .ok filled ↔
      columns.length + 1 = needed ∧ "" ∉ columns ∧ filled = columns := by
  unfold readColumns
  split
  · next h => simp [h, eq_comm]
  · next h =>
    constructor
    · intro h
      cases h
    · rintro ⟨hlength, hfilled, -⟩
      exact absurd ⟨hlength, hfilled⟩ h

theorem readMember_eq_ok {record : MemberRecord} :
    readMember kind count columns = .ok record ↔
      columns = record.owner :: record.desc :: record.names ∧ record.names.length = count ∧
        "" ∉ columns := by
  unfold readMember
  constructor
  · intro h
    obtain ⟨filled, hfilled, h⟩ := eq_ok_of_bind h
    obtain ⟨hlength, hempty, rfl⟩ := readColumns_eq_ok.1 hfilled
    split at h
    · obtain rfl := Except.ok.inj h
      rw [List.length_cons, List.length_cons] at hlength
      refine ⟨rfl, ?_, hempty⟩
      simp only
      omega
    · cases h
  · rintro ⟨rfl, hcount, hempty⟩
    have hlength : (record.owner :: record.desc :: record.names).length + 1 = 3 + count := by
      rw [List.length_cons, List.length_cons]
      omega
    rw [readColumns_eq_ok.2 ⟨hlength, hempty, rfl⟩]
    rfl

/-! ## One line -/

theorem readEntry_of_blank (h : ∀ c ∈ line.toList, Text.isBlank c = true) :
    readEntry count line = .ok .remark := by
  unfold readEntry
  rw [Text.trim_eq_nil.2 h]
  rfl

theorem not_blank_of_head {x : Char} (hhead : line.toList.head? = some x)
    (hx : Text.isBlank x = false) : (Text.trim line.toList).isEmpty = false := by
  rw [List.isEmpty_eq_false_iff]
  exact Text.trim_ne_nil (List.mem_of_head? hhead) hx

theorem readEntry_of_mark (hmark : line.toList.head? = some '#') :
    readEntry count line =
      match readCounterLine line with
      | none => .ok .remark
      | some (.ok (category, value)) => .ok (.counter category value)
      | some (.error fault) => .error (.counter fault) := by
  unfold readEntry
  rw [not_blank_of_head hmark (by decide), if_neg Bool.false_ne_true]
  exact if_pos hmark

/-- A line that starts with a letter is read by its columns. -/
theorem readEntry_of_columns {x : Char} (hcolumns : Text.columnsOf line = kind :: columns)
    (hkind : kind.toList.head? = some x) (hblank : Text.isBlank x = false) (hmark : x ≠ '#') :
    readEntry count line =
      match kind :: columns with
      | "CLASS" :: columns => .ofClass <$> readColumns "CLASS" (1 + count) columns
      | "FIELD" :: columns => .ofField <$> readMember "FIELD" count columns
      | "METHOD" :: columns => .ofMethod <$> readMember "METHOD" count columns
      | kind :: _ => .error (.unknownRecord kind)
      | [] => .error (.unknownRecord "") := by
  have hhead : line.toList.head? = some x := by
    obtain ⟨rest, hrest⟩ := Text.prefix_of_columnsOf hcolumns
    rw [← hrest, List.head?_append, hkind]
    rfl
  unfold readEntry
  rw [not_blank_of_head hhead hblank, if_neg Bool.false_ne_true, hcolumns, hhead]
  exact if_neg fun h => hmark (Option.some.inj h)

theorem head_of_keepsCounter (h : KeepsCounter line c n) : line.toList.head? = some '#' := by
  obtain ⟨hstart, -⟩ := h
  rw [hstart]
  rfl

/-- What a line holds is what is read of it. -/
theorem readEntry_eq_ok : readEntry count line = .ok e ↔ Holds count line e := by
  constructor
  · intro h
    unfold readEntry at h
    split at h
    · next hblank =>
      obtain rfl := Except.ok.inj h
      exact .blank (Text.trim_eq_nil.1 (List.isEmpty_iff.1 hblank))
    · split at h
      · next hmark =>
        split at h
        · next hnone =>
          obtain rfl := Except.ok.inj h
          exact .remark hmark (readCounterLine_eq_none_iff.1 hnone)
        · next hcounter =>
          obtain rfl := Except.ok.inj h
          exact .counter (readCounterLine_eq_ok.1 hcounter)
        · cases h
      · split at h
        · next hcolumns =>
          obtain ⟨names, hnames, rfl⟩ := map_eq_ok.1 h
          obtain ⟨hlength, hfilled, rfl⟩ := readColumns_eq_ok.1 hnames
          exact .ofClass hcolumns (by omega) hfilled
        · next hcolumns =>
          obtain ⟨record, hrecord, rfl⟩ := map_eq_ok.1 h
          obtain ⟨rfl, hcount, hfilled⟩ := readMember_eq_ok.1 hrecord
          exact .ofField hcolumns hcount hfilled
        · next hcolumns =>
          obtain ⟨record, hrecord, rfl⟩ := map_eq_ok.1 h
          obtain ⟨rfl, hcount, hfilled⟩ := readMember_eq_ok.1 hrecord
          exact .ofMethod hcolumns hcount hfilled
        · cases h
        · cases h
  · intro h
    cases h with
    | blank h => exact readEntry_of_blank h
    | remark hmark hcounter =>
      rw [readEntry_of_mark hmark, readCounterLine_eq_none_iff.2 hcounter]
    | counter h =>
      rw [readEntry_of_mark (head_of_keepsCounter h), readCounterLine_eq_ok.2 h]
    | ofClass hcolumns hcount hfilled =>
      rw [readEntry_of_columns hcolumns rfl (by decide) (by decide)]
      exact map_eq_ok.2 ⟨_, readColumns_eq_ok.2 ⟨by omega, hfilled, rfl⟩, rfl⟩
    | ofField hcolumns hcount hfilled =>
      rw [readEntry_of_columns hcolumns rfl (by decide) (by decide)]
      exact map_eq_ok.2 ⟨_, readMember_eq_ok.2 ⟨rfl, hcount, hfilled⟩, rfl⟩
    | ofMethod hcolumns hcount hfilled =>
      rw [readEntry_of_columns hcolumns rfl (by decide) (by decide)]
      exact map_eq_ok.2 ⟨_, readMember_eq_ok.2 ⟨rfl, hcount, hfilled⟩, rfl⟩

/-! ## All lines -/

theorem readHeader_eq_ok : readHeader header = .ok names ↔ IsHeader header names := by
  unfold readHeader IsHeader
  split
  · next version namespaces hcolumns =>
    rw [hcolumns, List.cons.injEq]
    split
    · next hversion =>
      split
      · next hfew =>
        constructor
        · intro h
          cases h
        · rintro ⟨⟨-, rfl⟩, hlength⟩
          omega
      · next hmany =>
        constructor
        · intro h
          obtain rfl := Except.ok.inj h
          exact ⟨⟨hversion, rfl⟩, by omega⟩
        · rintro ⟨⟨-, rfl⟩, -⟩
          rfl
    · next hversion =>
      constructor
      · intro h
        cases h
      · rintro ⟨⟨h, -⟩, -⟩
        exact absurd h hversion
  · next hcolumns =>
    rw [hcolumns]
    constructor
    · intro h
      cases h
    · rintro ⟨h, -⟩
      cases h

theorem readEntries_eq_ok :
    readEntries source count number lines = .ok es ↔ List.Forall₂ (Holds count) lines es := by
  induction lines generalizing number es with
  | nil =>
    rw [List.forall₂_nil_left_iff, readEntries]
    constructor
    · intro h
      exact (Except.ok.inj h).symm
    · rintro rfl
      rfl
  | cons line rest ih =>
    rw [List.forall₂_cons_left_iff, readEntries]
    rcases hline : readEntry count line with fault | e
    · constructor
      · intro h
        cases h
      · rintro ⟨e, -, he, -⟩
        rw [readEntry_eq_ok.2 he] at hline
        cases hline
    · simp only
      rw [map_eq_ok]
      constructor
      · rintro ⟨more, hmore, rfl⟩
        exact ⟨e, more, readEntry_eq_ok.1 hline, ih.1 hmore, rfl⟩
      · rintro ⟨e', more, he, hmore, rfl⟩
        rw [readEntry_eq_ok.2 he] at hline
        obtain rfl := Except.ok.inj hline
        exact ⟨more, ih.2 hmore, rfl⟩

/-- The first faulty line is the one that is reported. -/
theorem readEntries_of_fault {before after : List String}
    (hbefore : ∀ l ∈ before, ∃ e, Holds count l e) (hline : ∀ e, ¬ Holds count line e) :
    ∃ fault, readEntries source count number (before ++ line :: after) =
      .error (.format source (number + before.length) fault) := by
  induction before generalizing number with
  | nil =>
    rcases hread : readEntry count line with fault | e
    · refine ⟨fault, ?_⟩
      rw [List.nil_append, readEntries, hread]
      rfl
    · exact absurd (readEntry_eq_ok.1 hread) (hline e)
  | cons first before ih =>
    rw [List.forall_mem_cons] at hbefore
    obtain ⟨⟨e, he⟩, hrest⟩ := hbefore
    obtain ⟨fault, hfault⟩ := @ih (number + 1) hrest
    refine ⟨fault, ?_⟩
    rw [List.cons_append, readEntries, readEntry_eq_ok.2 he]
    simp only
    rw [hfault, List.length_cons, Nat.add_right_comm]
    rfl

/-- Lines are all read, or else one of them breaks the grammar first. -/
theorem forall₂_or_fault (count : Nat) (lines : List String) :
    (∃ es, List.Forall₂ (Holds count) lines es) ∨
      ∃ before line after, lines = before ++ line :: after ∧
        (∀ l ∈ before, ∃ e, Holds count l e) ∧ ∀ e, ¬ Holds count line e := by
  induction lines with
  | nil => exact .inl ⟨[], .nil⟩
  | cons line rest ih =>
    by_cases hline : ∃ e, Holds count line e
    · rcases ih with ⟨es, hrest⟩ | ⟨before, line', after, rfl, hbefore, hfault⟩
      · obtain ⟨e, he⟩ := hline
        exact .inl ⟨e :: es, .cons he hrest⟩
      · exact .inr ⟨line :: before, line', after, rfl,
          List.forall_mem_cons.2 ⟨hline, hbefore⟩, hfault⟩
    · exact .inr ⟨[], line, rest, rfl, by simp, not_exists.1 hline⟩

theorem readSnapshot_eq_ok {text : String} {s : Snapshot} :
    readSnapshot source text = .ok s ↔ IsSnapshot (Text.linesOf text) s := by
  unfold readSnapshot IsSnapshot
  rcases Text.linesOf text with _ | ⟨header, body⟩
  · constructor
    · intro h
      cases h
    · rintro ⟨header, body, h, -⟩
      cases h
  simp only
  rcases hheader : readHeader header with fault | namespaces
  · constructor
    · intro h
      cases h
    · rintro ⟨header', body', h, hnames, -⟩
      obtain ⟨rfl, -⟩ := List.cons.inj h
      rw [readHeader_eq_ok.2 hnames] at hheader
      cases hheader
  · simp only
    rw [map_eq_ok]
    constructor
    · rintro ⟨es, hes, rfl⟩
      exact ⟨header, body, rfl, readHeader_eq_ok.1 hheader, readEntries_eq_ok.1 hes⟩
    · rintro ⟨header', body', h, hnames, hes⟩
      obtain ⟨rfl, rfl⟩ := List.cons.inj h
      rw [readHeader_eq_ok.2 hnames] at hheader
      obtain rfl := Except.ok.inj hheader
      exact ⟨s.entries, readEntries_eq_ok.2 hes, rfl⟩

theorem readSnapshot_of_breaksAt {text : String} (h : BreaksAt (Text.linesOf text) number) :
    ∃ fault, readSnapshot source text = .error (.format source number fault) := by
  unfold readSnapshot
  cases h with
  | header h =>
    rcases hlines : Text.linesOf text with _ | ⟨header, body⟩
    · exact ⟨_, rfl⟩
    simp only
    rcases hheader : readHeader header with fault | namespaces
    · exact ⟨fault, rfl⟩
    · exact absurd (readHeader_eq_ok.1 hheader) (h header body namespaces hlines)
  | @body header line namespaces before after hlines hheader hbefore hline =>
    obtain ⟨fault, hfault⟩ := @readEntries_of_fault _ 2 source _ _ after hbefore hline
    refine ⟨fault, ?_⟩
    rw [hlines]
    simp only
    rw [readHeader_eq_ok.2 hheader]
    simp only
    rw [hfault, Nat.add_comm 2]
    rfl

/-- Every text is a snapshot, or else breaks the grammar at some line. -/
theorem isSnapshot_or_breaksAt (lines : List String) :
    (∃ s, IsSnapshot lines s) ∨ ∃ number, BreaksAt lines number := by
  by_cases hheader : ∃ header body namespaces, lines = header :: body ∧ IsHeader header namespaces
  · obtain ⟨header, body, namespaces, rfl, hheader⟩ := hheader
    rcases forall₂_or_fault namespaces.length body with
      ⟨es, hes⟩ | ⟨before, line, after, rfl, hbefore, hline⟩
    · exact .inl ⟨⟨namespaces, es⟩, header, body, rfl, hheader, hes⟩
    · exact .inr ⟨_, .body rfl hheader hbefore hline⟩
  · simp only [not_exists, not_and] at hheader
    exact .inr ⟨1, .header hheader⟩

/-! ## The records of each kind -/

/-- The columns of a line behind the first one, where that is the kind of a record. -/
def columnsAfter? (kind line : String) : Option (List String) :=
  match Text.columnsOf line with
  | first :: columns => if first = kind then some columns else none
  | [] => none

/-- The columns of a field or method behind the first one. -/
def MemberRecord.toColumns (record : MemberRecord) : List String :=
  record.owner :: record.desc :: record.names

/-- The records of each kind are those of the lines, in order, and so are the counters. -/
structure Snapshot.Gathers (s : Snapshot) (body : List String) : Prop where
  classes : s.classes = body.filterMap (columnsAfter? "CLASS")
  fields : s.fields.map (·.toColumns) = body.filterMap (columnsAfter? "FIELD")
  methods : s.methods.map (·.toColumns) = body.filterMap (columnsAfter? "METHOD")
  counters : List.Forall₂ (fun line counter => KeepsCounter line counter.1 counter.2)
    (body.filter fun line => counterPrefix.toList <+: line.toList) s.counters

/-- The columns of an entry behind the first one, where that is the kind of a record. -/
def Entry.columnsAfter? (kind : String) : Entry → Option (List String)
  | .ofClass names => if "CLASS" = kind then some names else none
  | .ofField record => if "FIELD" = kind then some record.toColumns else none
  | .ofMethod record => if "METHOD" = kind then some record.toColumns else none
  | .remark | .counter _ _ => none

theorem columnsAfter?_of_head {x : Char} (hkind : kind.toList.head? = some x)
    (hx : ∀ y, line.toList.head? = some y → y ≠ x) : columnsAfter? kind line = none := by
  unfold columnsAfter?
  split
  · next first columns hcolumns =>
    rw [if_neg]
    rintro rfl
    obtain ⟨rest, hrest⟩ := Text.prefix_of_columnsOf hcolumns
    refine hx x ?_ rfl
    rw [← hrest, List.head?_append, hkind]
    rfl
  · rfl

theorem Holds.columnsAfter?_eq {x : Char} (h : Holds count line e)
    (hkind : kind.toList.head? = some x) (hblank : Text.isBlank x = false) (hmark : x ≠ '#') :
    columnsAfter? kind line = e.columnsAfter? kind := by
  have hnone : line.toList.head? = some '#' → columnsAfter? kind line = none := by
    intro hhead
    apply columnsAfter?_of_head hkind
    rintro y hy rfl
    exact hmark (Option.some.inj (hy.symm.trans hhead))
  cases h with
  | blank h =>
    apply columnsAfter?_of_head hkind
    rintro y hy rfl
    rw [h y (List.mem_of_head? hy)] at hblank
    cases hblank
  | remark hhead => exact hnone hhead
  | counter h => exact hnone (head_of_keepsCounter h)
  | ofClass hcolumns | ofField hcolumns | ofMethod hcolumns =>
    unfold columnsAfter?
    rw [hcolumns]
    rfl

theorem filterMap_eq_of_forall₂ {α β γ : Type} {R : α → β → Prop} {xs : List α} {ys : List β}
    {f : α → Option γ} {g : β → Option γ} (h : List.Forall₂ R xs ys)
    (heq : ∀ x y, R x y → f x = g y) : xs.filterMap f = ys.filterMap g := by
  induction h with
  | nil => rfl
  | cons hxy _ ih => rw [List.filterMap_cons, List.filterMap_cons, heq _ _ hxy, ih]

/-- Only lines that keep a counter start like one. -/
theorem Holds.exists_counter (h : Holds count line e)
    (hstart : counterPrefix.toList <+: line.toList) :
    ∃ c n, e = .counter c n := by
  have hhead : line.toList.head? = some '#' := by
    obtain ⟨rest, hrest⟩ := hstart
    rw [← hrest]
    rfl
  have hcolumns : ∀ {kind columns} {x : Char}, Text.columnsOf line = kind :: columns →
      kind.toList.head? = some x → x ≠ '#' → False := by
    intro kind columns x hcolumns hkind hx
    obtain ⟨rest, hrest⟩ := Text.prefix_of_columnsOf hcolumns
    rw [← hrest, List.head?_append, hkind] at hhead
    exact hx (Option.some.inj hhead)
  cases h with
  | blank h => exact absurd (h _ (List.mem_of_head? hhead)) (by decide)
  | remark _ hcounter => exact absurd hstart hcounter
  | counter => exact ⟨_, _, rfl⟩
  | ofClass h | ofField h | ofMethod h => exact (hcolumns h rfl (by decide)).elim

theorem counters_of_forall₂ (h : List.Forall₂ (Holds count) lines es) :
    List.Forall₂ (fun line counter => KeepsCounter line counter.1 counter.2)
      (lines.filter fun line => counterPrefix.toList <+: line.toList)
      (es.filterMap fun | .counter category value => some (category, value) | _ => none) := by
  induction h with
  | nil => exact .nil
  | @cons line e lines es hline _ ih =>
    by_cases hstart : counterPrefix.toList <+: line.toList
    · rw [List.filter_cons_of_pos (by simpa using hstart)]
      obtain ⟨c, n, rfl⟩ := hline.exists_counter hstart
      cases hline with
      | counter h => exact .cons h ih
    · rw [List.filter_cons_of_neg (by simpa using hstart)]
      cases hline with
      | counter h =>
        obtain ⟨hcounter, -⟩ := h
        exact absurd ⟨_, hcounter.symm⟩ hstart
      | _ => exact ih

theorem IsSnapshot.gathers {s : Snapshot} (h : IsSnapshot lines s) : s.Gathers lines.tail := by
  obtain ⟨header, body, rfl, -, hbody⟩ := h
  constructor
  case classes =>
    refine (filterMap_eq_of_forall₂ hbody fun line e he => ?_).symm
    rw [he.columnsAfter?_eq rfl (by decide) (by decide)]
    cases e <;> rfl
  case fields =>
    rw [Snapshot.fields, List.map_filterMap]
    refine (filterMap_eq_of_forall₂ hbody fun line e he => ?_).symm
    rw [he.columnsAfter?_eq rfl (by decide) (by decide)]
    cases e <;> rfl
  case methods =>
    rw [Snapshot.methods, List.map_filterMap]
    refine (filterMap_eq_of_forall₂ hbody fun line e he => ?_).symm
    rw [he.columnsAfter?_eq rfl (by decide) (by decide)]
    cases e <;> rfl
  case counters => exact counters_of_forall₂ hbody

/-- A text is read as a snapshot if and only if its lines are those of one, and what is read is
what they hold: the records of each kind and the counters, in order. Of any other text the first
line that breaks the grammar is reported. A carriage return before each line feed changes
nothing, where the text has no other ones. -/
theorem snapshots_are_read_by_their_grammar (source text : String) :
    (∀ s, readSnapshot source text = .ok s ↔ IsSnapshot (Text.linesOf text) s) ∧
    (∀ s, readSnapshot source text = .ok s → s.Gathers (Text.linesOf text).tail) ∧
    (∀ number, (∃ fault, readSnapshot source text = .error (.format source number fault)) ↔
      BreaksAt (Text.linesOf text) number) ∧
    (∀ problem, readSnapshot source text = .error problem →
      ∃ number fault, problem = .format source number fault) ∧
    ('\r' ∉ text.toList →
      readSnapshot source (String.ofList (Text.withReturns text.toList)) =
        readSnapshot source text) := by
  have hfault : ∀ problem, readSnapshot source text = .error problem →
      ∃ number fault, problem = .format source number fault ∧
        BreaksAt (Text.linesOf text) number := by
    intro problem h
    rcases isSnapshot_or_breaksAt (Text.linesOf text) with ⟨s, hs⟩ | ⟨number, hbreaks⟩
    · rw [readSnapshot_eq_ok.2 hs] at h
      cases h
    · obtain ⟨fault, hread⟩ := @readSnapshot_of_breaksAt _ source _ hbreaks
      exact ⟨number, fault, (Except.error.inj (hread.symm.trans h)).symm, hbreaks⟩
  refine ⟨fun s => readSnapshot_eq_ok, ?gathers, ?breaks, ?format, ?returns⟩
  case gathers =>
    intro s h
    exact (readSnapshot_eq_ok.1 h).gathers
  case breaks =>
    intro number
    constructor
    · rintro ⟨fault, h⟩
      obtain ⟨number', fault', heq, hbreaks⟩ := hfault _ h
      obtain ⟨-, rfl, -⟩ := Problem.format.inj heq
      exact hbreaks
    · exact readSnapshot_of_breaksAt
  case format =>
    intro problem h
    obtain ⟨number, fault, heq, -⟩ := hfault problem h
    exact ⟨number, fault, heq⟩
  case returns =>
    intro h
    unfold readSnapshot Text.linesOf
    rw [String.toList_ofList, Text.lines_withReturns h]

/-- A snapshot with blank lines, remarks, counters and one record of each kind. -/
def mixedText : String :=
  "v1\tofficial\tnamed\n \t\nCLASS\ta\tA\n# INTERMEDIARY-COUNTERclass +7\n#\n" ++
    "METHOD\ta\t()V\tb\tB\nFIELD\ta\tI\tc\tC"

theorem snapshots_are_read_by_their_grammar_mixed :
    '\r' ∉ mixedText.toList ∧
    readSnapshot "" (String.ofList (Text.withReturns mixedText.toList)) =
      .ok ⟨["official", "named"], [.remark, .ofClass ["a", "A"], .counter .ofClass 7, .remark,
        .ofMethod ⟨"a", "()V", ["b", "B"]⟩, .ofField ⟨"a", "I", ["c", "C"]⟩]⟩ := by
  have hreturns : '\r' ∉ mixedText.toList := by decide +kernel
  refine ⟨hreturns, ?_⟩
  rw [(snapshots_are_read_by_their_grammar "" mixedText).2.2.2.2 hreturns]
  exact eq_ok_of_toOption (by decide +kernel)

end StableNames
