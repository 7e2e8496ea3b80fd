-- Reading a snapshot undoes writing it. The names of the records must be
-- clean, so that they stay in their columns, and the counters must fit
-- into the words that they are read as.
import Mathlib.Data.List.Basic
import StableNames.Proofs.Snapshot.Grammar
import StableNames.Snapshot.Record

namespace StableNames

/-- A text without tabs and line feeds. -/
def Unbroken (s : String) : Prop := ∀ c ∈ s.toList, c ≠ '\t' ∧ c ≠ '\n'

/-- A name that can stand in a column of a record, also in the last one, where a carriage
return at its end would be lost. -/
structure CleanName (s : String) : Prop where
  ne_empty : s ≠ ""
  unbroken : Unbroken s
  no_return : s.toList.getLast? ≠ some '\r'

instance (s : String) : Decidable (Unbroken s) :=
  List.decidableBAll (fun c => c ≠ '\t' ∧ c ≠ '\n') s.toList

instance (s : String) : Decidable (CleanName s) :=
  decidable_of_iff (s ≠ "" ∧ Unbroken s ∧ s.toList.getLast? ≠ some '\r')
    ⟨fun h => ⟨h.1, h.2.1, h.2.2⟩, fun h => ⟨h.1, h.2, h.3⟩⟩

theorem unbroken_append {s t : String} (hs : Unbroken s) (ht : Unbroken t) :
    Unbroken (s ++ t) := by
  intro c hc
  rw [String.toList_append, List.mem_append] at hc
  exact hc.elim (hs c) (ht c)

/-- A clean name stays clean behind a text without tabs and line feeds. -/
theorem CleanName.append {place own : String} (hp : Unbroken place) (h : CleanName own) :
    CleanName (place ++ own) := by
  have hne : own.toList ≠ [] := by simpa using h.ne_empty
  refine ⟨?_, unbroken_append hp h.unbroken, ?_⟩
  · intro hempty
    have := congrArg String.toList hempty
    rw [String.toList_append] at this
    exact hne (List.append_eq_nil_iff.1 this).2
  · rw [String.toList_append, List.getLast?_append_of_ne_nil _ hne]
    exact h.no_return

namespace Record

/-- The columns of a record, of which the first is its kind. -/
def columns : Record → List String
  | .ofClass source target => ["CLASS", source, target]
  | .ofField owner desc source target => ["FIELD", owner, desc, source, target]
  | .ofMethod owner desc source target => ["METHOD", owner, desc, source, target]
  | .verbatim _ => []

/-- A record whose columns are all clean. -/
def Clean : Record → Prop
  | .ofClass source target => CleanName source ∧ CleanName target
  | .ofField owner desc source target | .ofMethod owner desc source target =>
    CleanName owner ∧ CleanName desc ∧ CleanName source ∧ CleanName target
  | .verbatim _ => False

instance : (r : Record) → Decidable r.Clean
  | .ofClass source target => inferInstanceAs (Decidable (CleanName source ∧ CleanName target))
  | .ofField owner desc source target | .ofMethod owner desc source target =>
    inferInstanceAs (Decidable
      (CleanName owner ∧ CleanName desc ∧ CleanName source ∧ CleanName target))
  | .verbatim _ => inferInstanceAs (Decidable False)

/-- What a record is read back as. -/
def entry : Record → Entry
  | .ofClass source target => .ofClass [source, target]
  | .ofField owner desc source target => .ofField ⟨owner, desc, [source, target]⟩
  | .ofMethod owner desc source target => .ofMethod ⟨owner, desc, [source, target]⟩
  | .verbatim _ => .remark

end Record

/-! ## Lines of records -/

variable {r : Record} {count : Nat}

theorem Record.text_of_clean (h : r.Clean) : r.text = Text.lineOf r.columns := by
  cases r with
  | verbatim => exact h.elim
  | _ => rfl

theorem Record.clean_columns (h : r.Clean) : ∀ column ∈ r.columns, CleanName column := by
  have hkind : CleanName "CLASS" ∧ CleanName "FIELD" ∧ CleanName "METHOD" := by decide
  cases r with
  | ofClass source target =>
    simp only [Record.columns, List.forall_mem_cons]
    exact ⟨hkind.1, h.1, h.2, by simp⟩
  | ofField owner desc source target =>
    obtain ⟨ho, hd, hs, ht⟩ := h
    simp only [Record.columns, List.forall_mem_cons]
    exact ⟨hkind.2.1, ho, hd, hs, ht, by simp⟩
  | ofMethod owner desc source target =>
    obtain ⟨ho, hd, hs, ht⟩ := h
    simp only [Record.columns, List.forall_mem_cons]
    exact ⟨hkind.2.2, ho, hd, hs, ht, by simp⟩
  | verbatim => exact h.elim

theorem columnsOf_columns (columns : List String) (hne : columns ≠ [])
    (h : ∀ column ∈ columns, CleanName column) :
    Text.columnsOf ("\t".intercalate columns) = columns :=
  Text.columnsOf_intercalate hne fun column hc ht => ((h column hc).unbroken '\t' ht).1 rfl

/-- Clean columns make a whole line. -/
theorem isLine_columns {columns : List String} (h : ∀ column ∈ columns, CleanName column) :
    Text.IsLine ("\t".intercalate columns).toList := by
  constructor
  · intro hmem
    rcases Text.mem_of_mem_intercalate hmem with hc | ⟨column, hc, hin⟩
    · exact absurd hc (by decide)
    · exact ((h column hc).unbroken _ hin).2 rfl
  · induction columns with
    | nil => simp
    | cons column columns ih =>
      have hcolumn := h column List.mem_cons_self
      have hrest : ∀ column ∈ columns, CleanName column :=
        fun c hc => h c (List.mem_cons_of_mem _ hc)
      cases columns with
      | nil => simpa using hcolumn.no_return
      | cons next columns =>
        have hne : ("\t".intercalate (next :: columns)).toList ≠ [] :=
          Text.intercalate_ne_nil (hrest next List.mem_cons_self).ne_empty
        rw [String.intercalate_cons_cons, String.toList_append,
          List.getLast?_append_of_ne_nil _ hne]
        exact ih hrest

/-- A line starts with what its first column starts with. -/
theorem exists_intercalate_eq_cons {first : String} {c : Char} {rest : List Char}
    (h : first.toList = c :: rest) (columns : List String) :
    ∃ more, ("\t".intercalate (first :: columns)).toList = c :: more := by
  cases columns with
  | nil => exact ⟨rest, by simpa using h⟩
  | cons next columns =>
    rw [String.intercalate_cons_cons, String.toList_append, String.toList_append, h]
    exact ⟨_, rfl⟩

/-- The line of a clean record holds this record. -/
theorem holds_record (h : r.Clean) : Holds 2 ("\t".intercalate r.columns) r.entry := by
  have hclean := Record.clean_columns h
  have hfilled : "" ∉ r.columns := fun hmem => (hclean _ hmem).ne_empty rfl
  cases r with
  | ofClass source target =>
    exact .ofClass (columnsOf_columns _ (List.cons_ne_nil _ _) hclean) rfl
      fun hmem => hfilled (List.mem_cons_of_mem _ hmem)
  | ofField owner desc source target =>
    exact .ofField (columnsOf_columns _ (List.cons_ne_nil _ _) hclean) rfl
      fun hmem => hfilled (List.mem_cons_of_mem _ hmem)
  | ofMethod owner desc source target =>
    exact .ofMethod (columnsOf_columns _ (List.cons_ne_nil _ _) hclean) rfl
      fun hmem => hfilled (List.mem_cons_of_mem _ hmem)
  | verbatim => exact h.elim

/-! ## Lines of counters -/

/-- All counters fit into the words that they are read as. -/
def Counters.Fit (cs : Counters) : Prop := ∀ e ∈ cs.toList, e.2 < Text.wordLimit

instance (cs : Counters) : Decidable cs.Fit := by
  unfold Counters.Fit
  infer_instance

/-- The line of a counter without its end. -/
def counterText (c : Category) (n : Nat) : String :=
  counterPrefix ++ " " ++ c.word ++ " " ++ toString n

theorem counterLine_eq (c : Category) (n : Nat) : counterLine c n = counterText c n ++ "\n" := rfl

theorem isBlank_of_mem_word {category : Category} {c : Char} (h : c ∈ category.word.toList) :
    Text.isBlank c = false := by
  have hall : category.word.toList.all (fun c => !Text.isBlank c) = true := by
    cases category <;> decide
  simpa using List.all_eq_true.1 hall c h

theorem isBlank_of_isDigit {c : Char} (h : c.isDigit = true) : Text.isBlank c = false := by
  rw [← Bool.not_eq_true]
  intro hb
  have hc : 48 ≤ c.toNat ∧ c.toNat ≤ 57 := by
    simpa [Char.isDigit, UInt32.le_iff_toNat_le] using h
  simp only [Text.isBlank, Bool.or_eq_true, Bool.and_eq_true, decide_eq_true_eq, beq_iff_eq] at hb
  omega

theorem keepsCounter_counterText {c : Category} {n : Nat} (h : n < Text.wordLimit) :
    KeepsCounter (counterText c n) c n := by
  have htext : (counterText c n).toList =
      counterPrefix.toList ++ ' ' :: (c.word.toList ++ ' ' :: (toString n).toList) := by
    simp [counterText]
  have hwords : Text.words (' ' :: (c.word.toList ++ ' ' :: (toString n).toList)) =
      [c.word.toList, (toString n).toList] := by
    rw [Text.words_cons_blank (by decide), Text.words_append_blank (by cases c <;> decide)
      (fun _ => isBlank_of_mem_word) (by decide), Text.words_word (Text.toString_ne_nil n)]
    intro x hx
    exact isBlank_of_isDigit (Text.isDigit_of_mem_toString hx)
  exact ⟨htext, hwords, Text.isNumeral_toString n, h⟩

theorem isLine_counterText (c : Category) (n : Nat) :
    Text.IsLine (counterText c n).toList := by
  have hword : ∀ x ∈ c.word.toList, Text.isBlank x = false := fun _ => isBlank_of_mem_word
  have hdigit : ∀ x ∈ (toString n).toList, Text.isBlank x = false :=
    fun x hx => isBlank_of_isDigit (Text.isDigit_of_mem_toString hx)
  have hnone : ∀ x : Char, Text.isBlank x = true → x ≠ ' ' → x ∉ counterPrefix.toList →
      x ∉ (counterText c n).toList := by
    intro x hb hx hp hmem
    simp only [counterText, String.toList_append, List.mem_append] at hmem
    rcases hmem with (((hmem | hmem) | hmem) | hmem) | hmem
    · exact hp hmem
    · exact hx (List.mem_singleton.1 hmem)
    · rw [hword x hmem] at hb
      cases hb
    · exact hx (List.mem_singleton.1 hmem)
    · rw [hdigit x hmem] at hb
      cases hb
  refine ⟨hnone _ (by decide) (by decide) (by decide), ?_⟩
  intro hlast
  exact hnone _ (by decide) (by decide) (by decide) (List.mem_of_getLast? hlast)

theorem toList_lines (cs : Counters) : cs.lines.toList =
    (cs.toList.map fun e => (counterText e.1 e.2).toList).flatMap (· ++ ['\n']) := by
  unfold Counters.lines
  rw [String.toList_join, List.flatMap_map, List.flatMap_map, List.flatMap_def, List.flatMap_def]
  apply congrArg List.flatten
  apply List.map_congr_left
  intro e _
  rw [counterLine_eq, String.toList_append]
  rfl

/-! ## The whole text -/

/-- The lines of a snapshot of records and counters. -/
theorem linesOf_writeSnapshot {source target : String} {rs : List Record} {cs : Counters}
    (hs : CleanName source) (ht : CleanName target) (hr : ∀ r ∈ rs, r.Clean) :
    Text.linesOf (writeSnapshot source target (rs ++ [.verbatim cs.lines])) =
      "\t".intercalate [snapshotVersion, source, target] ::
        (rs.map fun r => "\t".intercalate r.columns) ++
          cs.toList.map fun e => counterText e.1 e.2 := by
  have hrecords : (String.join (rs.map Record.text)).toList =
      (rs.map fun r => ("\t".intercalate r.columns).toList).flatMap (· ++ ['\n']) := by
    rw [String.toList_join, List.flatMap_map, List.flatMap_map, List.flatMap_def,
      List.flatMap_def]
    apply congrArg List.flatten
    apply List.map_congr_left
    intro r hmem
    rw [Record.text_of_clean (hr r hmem), Text.lineOf, String.toList_append]
    rfl
  have htext : (writeSnapshot source target (rs ++ [.verbatim cs.lines])).toList =
      (("\t".intercalate [snapshotVersion, source, target]).toList ::
        (rs.map fun r => ("\t".intercalate r.columns).toList) ++
          cs.toList.map fun e => (counterText e.1 e.2).toList).flatMap (· ++ ['\n']) := by
    unfold writeSnapshot Text.lineOf
    rw [List.map_append, String.join_append, String.toList_append, String.toList_append,
      String.toList_append, hrecords, List.flatMap_append, List.flatMap_cons, ← toList_lines]
    simp [Record.text]
  unfold Text.linesOf
  rw [htext, Text.lines_flatMap]
  · simp only [List.map_append, List.map_cons, List.map_map, Function.comp_def,
      String.ofList_toList]
  · intro line hline
    simp only [List.mem_append, List.mem_cons, List.mem_map] at hline
    rcases hline with (rfl | ⟨r, hmem, rfl⟩) | ⟨e, _, rfl⟩
    · apply isLine_columns
      simp only [List.forall_mem_cons]
      exact ⟨by decide, hs, ht, by simp⟩
    · exact isLine_columns (Record.clean_columns (hr r hmem))
    · exact isLine_counterText _ _

/-- A snapshot of clean records and fitting counters is read back as it was written. -/
theorem readSnapshot_writeSnapshot {source target : String} {rs : List Record} {cs : Counters}
    (hs : CleanName source) (ht : CleanName target) (hr : ∀ r ∈ rs, r.Clean) (hc : cs.Fit)
    (file : String) :
    readSnapshot file (writeSnapshot source target (rs ++ [.verbatim cs.lines])) =
      .ok ⟨[source, target],
        rs.map Record.entry ++ cs.toList.map fun e => .counter e.1 e.2⟩ := by
  have hheader : IsHeader ("\t".intercalate [snapshotVersion, source, target])
      [source, target] := by
    refine ⟨columnsOf_columns _ (List.cons_ne_nil _ _) ?_, Nat.le_refl 2⟩
    simp only [List.forall_mem_cons]
    exact ⟨by decide, hs, ht, by simp⟩
  have hrecords : List.Forall₂ (Holds 2) (rs.map fun r => "\t".intercalate r.columns)
      (rs.map Record.entry) := by
    rw [List.forall₂_map_left_iff, List.forall₂_map_right_iff, List.forall₂_same]
    exact fun r hmem => holds_record (hr r hmem)
  have hcounters : List.Forall₂ (Holds 2) (cs.toList.map fun e => counterText e.1 e.2)
      (cs.toList.map fun e => .counter e.1 e.2) := by
    rw [List.forall₂_map_left_iff, List.forall₂_map_right_iff, List.forall₂_same]
    exact fun e hmem => .counter (keepsCounter_counterText (hc e hmem))
  exact readSnapshot_eq_ok.2 ⟨_, _, linesOf_writeSnapshot hs ht hr, hheader,
    List.rel_append hrecords hcounters⟩

end StableNames
