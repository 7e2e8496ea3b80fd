-- The two readers of a written snapshot. One reads records and counters,
-- the other only counters, from the snapshot or from a file of nothing
-- else. Both find the counters that were written, because no record starts
-- like a counter.
import StableNames.Naming.Allocator
import StableNames.Proofs.Snapshot.Loaded
import StableNames.Session.Prepare

namespace StableNames

variable {source target : String} {rs : List Record} {cs : Counters}

/-! ## Lines without counters -/

/-- A line is no counter line if its first column does not start with a `#`. -/
theorem readCounterLine_eq_none {first : String} {c : Char} {rest : List Char}
    (hfirst : first.toList = c :: rest) (hc : c ≠ '#') (columns : List String) :
    readCounterLine ("\t".intercalate (first :: columns)) = none := by
  obtain ⟨more, hmore⟩ := exists_intercalate_eq_cons hfirst columns
  rw [readCounterLine_eq_none_iff, hmore]
  rintro ⟨rest, hrest⟩
  exact hc (List.cons.inj hrest).1.symm

theorem readCounterLine_record {r : Record} (h : r.Clean) :
    readCounterLine ("\t".intercalate r.columns) = none := by
  cases r with
  | verbatim => exact h.elim
  | _ => exact readCounterLine_eq_none rfl (by decide) _

theorem readCounterLine_header (source target : String) :
    readCounterLine ("\t".intercalate [snapshotVersion, source, target]) = none :=
  readCounterLine_eq_none rfl (by decide) _

/-- Lines without counters are passed over. -/
theorem readCounterLines_append {file : String} {number : Nat} {before : List String}
    (h : ∀ line ∈ before, readCounterLine line = none) (after : List String) :
    readCounterLines file number (before ++ after) =
      readCounterLines file (number + before.length) after := by
  induction before generalizing number with
  | nil => rfl
  | cons line before ih =>
    rw [List.cons_append, readCounterLines, h line List.mem_cons_self]
    simp only
    rw [ih fun line hline => h line (List.mem_cons_of_mem _ hline), List.length_cons]
    congr 1
    omega

/-! ## Lines of counters -/

theorem readCounterLines_map {es : List (Category × Nat)} (h : ∀ e ∈ es, e.2 < Text.wordLimit)
    (file : String) (number : Nat) :
    readCounterLines file number (es.map fun e => counterText e.1 e.2) = .ok es := by
  induction es generalizing number with
  | nil => rfl
  | cons e es ih =>
    have hcounter := keepsCounter_counterText (c := e.1) (h e List.mem_cons_self)
    rw [List.map_cons, readCounterLines, readCounterLine_eq_ok.2 hcounter]
    simp only
    rw [ih fun e he => h e (List.mem_cons_of_mem _ he)]
    rfl

theorem linesOf_lines (cs : Counters) :
    Text.linesOf cs.lines = cs.toList.map fun e => counterText e.1 e.2 := by
  unfold Text.linesOf
  rw [toList_lines, Text.lines_flatMap]
  · simp only [List.map_map, Function.comp_def, String.ofList_toList]
  · intro line hline
    obtain ⟨e, _, rfl⟩ := List.mem_map.1 hline
    exact isLine_counterText _ _

theorem readCounters_lines (hc : cs.Fit) (file : String) :
    readCounters file cs.lines = .ok cs.toList := by
  unfold readCounters
  rw [linesOf_lines]
  exact readCounterLines_map hc file 1

/-- A reader of counters finds them behind the records. -/
theorem readCounters_writeSnapshot (hs : CleanName source) (ht : CleanName target)
    (hr : ∀ r ∈ rs, r.Clean) (hc : cs.Fit) (file : String) :
    readCounters file (writeSnapshot source target (rs ++ [.verbatim cs.lines])) =
      .ok cs.toList := by
  unfold readCounters
  rw [linesOf_writeSnapshot hs ht hr, readCounterLines_append]
  · exact readCounterLines_map hc file _
  · intro line hline
    rcases List.mem_cons.1 hline with rfl | hline
    · exact readCounterLine_header source target
    · obtain ⟨r, hmem, rfl⟩ := List.mem_map.1 hline
      exact readCounterLine_record (hr r hmem)

/-! ## What a snapshot is read back as -/

namespace Record

/-- The names of a class, as they are read back. -/
def names? : Record → Option (List String)
  | .ofClass source target => some [source, target]
  | _ => none

/-- A field, as it is read back. -/
def field? : Record → Option MemberRecord
  | .ofField owner desc source target => some ⟨owner, desc, [source, target]⟩
  | _ => none

/-- A method, as it is read back. -/
def method? : Record → Option MemberRecord
  | .ofMethod owner desc source target => some ⟨owner, desc, [source, target]⟩
  | _ => none

end Record

/-- A snapshot holds the records and the counters, each kind in its order. -/
structure Snapshot.Holds (s : Snapshot) (rs : List Record) (cs : Counters) : Prop where
  classes : s.classes = rs.filterMap (·.names?)
  fields : s.fields = rs.filterMap (·.field?)
  methods : s.methods = rs.filterMap (·.method?)
  counters : s.counters = cs.toList

theorem holds_written (namespaces : List String) (rs : List Record) (cs : Counters) :
    Snapshot.Holds ⟨namespaces, (Snapshot.written rs cs).entries⟩ rs cs := by
  constructor
  · exact filterMap_written_eq (fun _ _ => rfl) fun r => by cases r <;> rfl
  · exact filterMap_written_eq (fun _ _ => rfl) fun r => by cases r <;> rfl
  · exact filterMap_written_eq (fun _ _ => rfl) fun r => by cases r <;> rfl
  · exact counters_written rs cs

/-- Records and counters are read back as they were written. Names may hold anything but tabs
and line feeds, and a carriage return only where it is not at the end. The counters are found in
the snapshot, by both readers, and also in a file of their own, and an allocator that takes them
has exactly these. -/
theorem reading_undoes_writing (hs : CleanName source) (ht : CleanName target)
    (hr : ∀ r ∈ rs, r.Clean) (hc : cs.Fit) (file : String) :
    (∃ s, readSnapshot file (writeSnapshot source target (rs ++ [.verbatim cs.lines])) = .ok s ∧
      s.namespaces = [source, target] ∧ s.Holds rs cs) ∧
    (∀ text, text = writeSnapshot source target (rs ++ [.verbatim cs.lines]) ∨ text = cs.lines →
      readCounters file text = .ok cs.toList ∧
      ∀ (t : FileTree) (path : String), t.load path = .ok text →
        t.loadCounters path = .ok cs.toList) ∧
    (({} : Allocator).setCounters cs.toList).counters = cs := by
  refine ⟨?_, ?_, ?_⟩
  · exact ⟨_, readSnapshot_writeSnapshot hs ht hr hc file, rfl, holds_written _ rs cs⟩
  · intro text htext
    have hread : ∀ file, readCounters file text = .ok cs.toList := by
      intro file
      rcases htext with rfl | rfl
      · exact readCounters_writeSnapshot hs ht hr hc file
      · exact readCounters_lines hc file
    refine ⟨hread file, ?_⟩
    intro t path hload
    unfold FileTree.loadCounters
    rw [hload]
    exact hread path
  · exact setAll_toList cs

/-- Names that look like something else: a blank, a remark, a kind, a counter. -/
def oddRecords : List Record :=
  [.ofClass " " "# INTERMEDIARY-COUNTER class 7", .ofMethod "CLASS" "()V" "<init>" "é\u2028",
    .ofField "#" "I" "x" "FIELD", .ofClass "v1" "net/minecraft/class_1"]

def oddCounters : Counters := { classes := some 4294967295, methods := some 0 }

def oddText : String :=
  writeSnapshot "official" "intermediary" (oddRecords ++ [.verbatim oddCounters.lines])

theorem reading_undoes_writing_odd :
    (∀ r ∈ oddRecords, r.Clean) ∧ oddCounters.Fit ∧
    (∃ s, readSnapshot "odd.tiny" oddText = .ok s ∧
      s.namespaces = ["official", "intermediary"] ∧ s.Holds oddRecords oddCounters) ∧
    readCounters "odd.tiny" oddText = .ok oddCounters.toList := by
  have hr : ∀ r ∈ oddRecords, r.Clean := by decide
  have hc : oddCounters.Fit := by decide
  obtain ⟨hsnapshot, hcounters, _⟩ :=
    @reading_undoes_writing "official" "intermediary" _ _ (by decide) (by decide) hr hc "odd.tiny"
  exact ⟨hr, hc, hsnapshot, (hcounters oddText (.inl rfl)).1⟩

end StableNames
