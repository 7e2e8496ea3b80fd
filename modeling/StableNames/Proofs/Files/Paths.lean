-- The segments of paths that are put together from others: a name behind
-- a path, and the path next to another one at which new content waits.
-- What the two share is the way up to the directory in which they stand.
import Mathlib.Data.List.Basic
import StableNames.Files.Tree
import StableNames.Proofs.Text.Reading

namespace StableNames.Path

variable {path name : String}

/-! ## Segments -/

theorem segments_ne_nil (path : String) : segments path ≠ [] := by
  simp [segments, List.splitOn_ne_nil]

theorem slash_not_mem_of_mem_segments {s : String} (h : s ∈ segments path) : '/' ∉ s.toList := by
  obtain ⟨part, hpart, rfl⟩ := List.mem_map.1 h
  rw [String.toList_ofList]
  exact Text.mark_not_mem_of_mem_splitOn hpart

theorem segments_of_slash_not_mem (h : '/' ∉ name.toList) : segments name = [name] := by
  simp [segments, List.splitOn_eq_singleton h]

theorem segments_append (before after : String) :
    segments (before ++ "/" ++ after) = segments before ++ segments after := by
  have htext : (before ++ "/" ++ after).toList = before.toList ++ '/' :: after.toList := by
    simp [String.toList_append]
  simp [segments, htext, List.splitOn_append_cons_self]

theorem segments_intercalate {ss : List String} (hne : ss ≠ [])
    (h : ∀ s ∈ ss, '/' ∉ s.toList) : segments ("/".intercalate ss) = ss :=
  Text.splitOn_intercalate rfl hne h

/-- An absolute path is one with an empty segment before its first slash. -/
theorem isAbsolute_iff :
    isAbsolute path = true ↔ ∃ rest, rest ≠ [] ∧ segments path = "" :: rest := by
  unfold isAbsolute segments
  rcases path.toList with _ | ⟨c, text⟩
  · simp
  · rw [List.splitOn_cons_eq_if_modifyHead]
    by_cases hc : c = '/'
    · simp [hc, List.splitOn_ne_nil]
    · rcases hparts : text.splitOn '/' with _ | ⟨first, rest⟩
      · exact absurd hparts (List.splitOn_ne_nil _ text)
      · simp [hc]

/-! ## The segments that are not empty -/

/-- The segments of a path that are not empty. -/
def filled (path : String) : List String := (segments path).filter (· ≠ "")

theorem mem_of_mem_filled {s : String} (h : s ∈ filled path) : s ∈ segments path :=
  (List.mem_filter.1 h).1

/-- Every character but slashes stands in a segment that is not empty. -/
theorem exists_mem_filled_iff {c : Char} (hc : c ≠ '/') :
    (∃ s ∈ filled path, c ∈ s.toList) ↔ c ∈ path.toList := by
  rw [← Text.exists_mem_splitOn_iff hc]
  constructor
  · rintro ⟨s, hs, hmem⟩
    obtain ⟨part, hpart, rfl⟩ := List.mem_map.1 (mem_of_mem_filled hs)
    exact ⟨part, hpart, by simpa using hmem⟩
  · rintro ⟨part, hpart, hmem⟩
    refine ⟨String.ofList part, ?_, by simpa using hmem⟩
    refine List.mem_filter.2 ⟨List.mem_map_of_mem hpart, ?_⟩
    simp only [ne_eq, decide_not, Bool.not_eq_true', decide_eq_false_iff_not]
    intro h
    have hnil : part = [] := by simpa using congrArg String.toList h
    simp [hnil] at hmem

/-- What is followed are the segments that are not empty, and a dot for a slash at the end. -/
theorem steps_eq (path : String) :
    FileTree.steps path =
      filled path ++ if (segments path).getLast? = some "" then ["."] else [] := by
  unfold FileTree.steps filled
  rcases hs : (segments path).reverse with _ | ⟨last, before⟩
  · exact absurd (List.reverse_eq_nil_iff.1 hs) (segments_ne_nil path)
  · have hsegments : segments path = before.reverse ++ [last] := by
      rw [← List.reverse_reverse (segments path), hs, List.reverse_cons]
    by_cases hlast : last = ""
    · subst hlast
      simp [hsegments]
    · simp [hsegments, hlast]

theorem filled_ofSegments {ss : List String} (h : ∀ s ∈ ss, '/' ∉ s.toList) :
    filled (ofSegments ss) = ss.filter (· ≠ "") := by
  unfold ofSegments
  split
  · decide
  · rcases ss with _ | ⟨s, ss⟩
    · decide
    · rw [filled, segments_intercalate (List.cons_ne_nil _ _) h]

theorem isAbsolute_ofSegments {ss : List String} (h : ∀ s ∈ ss, '/' ∉ s.toList) :
    isAbsolute (ofSegments ss) = true ↔ ss.head? = some "" := by
  unfold ofSegments
  split
  · decide
  · next hroot =>
    rcases ss with _ | ⟨s, ss⟩
    · decide
    · rw [isAbsolute_iff, segments_intercalate (List.cons_ne_nil _ _) h]
      constructor
      · rintro ⟨rest, -, hrest⟩
        rw [hrest]
        rfl
      · intro hs
        obtain rfl : s = "" := by simpa using hs
        refine ⟨ss, ?_, rfl⟩
        rintro rfl
        exact hroot rfl

/-! ## A name behind a path -/

theorem segments_join (path : String) (h : '/' ∉ name.toList) :
    ∃ before, segments (join path name) = before ++ [name] ∧
      before.filter (· ≠ "") = filled path := by
  unfold join filled
  split
  · next hend =>
    rw [Bool.or_eq_true, decide_eq_true_eq, decide_eq_true_eq] at hend
    rcases hend with rfl | hslash
    · refine ⟨[], ?_, by decide⟩
      simpa using segments_of_slash_not_mem h
    · -- the slash that is there already ends an empty segment
      obtain ⟨before, hbefore⟩ : ∃ before : String, path = before ++ "/" := by
        obtain ⟨text, htext⟩ := List.getLast?_eq_some_iff.1 hslash
        refine ⟨String.ofList text, String.toList_inj.1 ?_⟩
        simpa [String.toList_append] using htext
      refine ⟨segments before, ?_, ?_⟩
      · rw [hbefore, segments_append, segments_of_slash_not_mem h]
      · have hpath : path = before ++ "/" ++ "" := by simpa using hbefore
        rw [hpath, segments_append]
        simp [show segments "" = [""] by decide]
  · exact ⟨segments path, by rw [segments_append, segments_of_slash_not_mem h], rfl⟩

theorem filled_join (path : String) (h : '/' ∉ name.toList) (hne : name ≠ "") :
    filled (join path name) = filled path ++ [name] := by
  obtain ⟨before, hjoin, hbefore⟩ := segments_join path h
  rw [filled, hjoin, List.filter_append, hbefore]
  simp [hne]

theorem steps_join (path : String) (h : '/' ∉ name.toList) (hne : name ≠ "") :
    FileTree.steps (join path name) = filled path ++ [name] := by
  obtain ⟨before, hjoin, -⟩ := segments_join path h
  rw [steps_eq, filled_join path h hne, hjoin]
  simp [hne]

theorem isAbsolute_join (path : String) (h : '/' ∉ name.toList) :
    isAbsolute (join path name) = isAbsolute path := by
  by_cases hpath : path = ""
  · subst hpath
    have hhead : name.toList.head? ≠ some '/' := fun hs => h (List.mem_of_mem_head? hs)
    simp [isAbsolute, join, hhead]
  · obtain ⟨c, text, htext⟩ : ∃ c text, path.toList = c :: text :=
      List.exists_cons_of_ne_nil (by simpa using hpath)
    unfold isAbsolute join
    split <;> simp [String.toList_append, htext]

/-! ## The name of a path, and the way up to it -/

/-- What is cut off at the end counts for nothing. -/
theorem exists_trimEnd (ss : List String) :
    ∃ blank, ss = trimEnd ss ++ blank ∧ ∀ s ∈ blank, s = "" ∨ s = "." := by
  rcases ss with _ | ⟨first, rest⟩
  · exact ⟨[], rfl, by simp⟩
  · refine ⟨(rest.reverse.takeWhile fun s => s = "" || s = ".").reverse, ?_, ?_⟩
    · rw [trimEnd, List.cons_append, ← List.reverse_append, List.takeWhile_append_dropWhile,
        List.reverse_reverse]
    · intro s hs
      simpa using List.mem_takeWhile_imp (List.mem_reverse.1 hs)

theorem head?_trimEnd (ss : List String) : (trimEnd ss).head? = ss.head? := by
  cases ss <;> rfl

/-- Without what counts for nothing, only dots are left of such an end. -/
theorem eq_dot_of_blank {blank : List String} (h : ∀ s ∈ blank, s = "" ∨ s = ".") :
    ∀ s ∈ blank.filter (· ≠ ""), s = "." := by
  intro s hs
  rw [List.mem_filter] at hs
  exact (h s hs.1).resolve_left (by simpa using hs.2)

theorem fileName?_eq_some :
    fileName? path = some name ↔
      (trimEnd (segments path)).getLast? = some name ∧ name ≠ "" ∧ name ≠ "." ∧ name ≠ ".." := by
  unfold fileName?
  rcases (trimEnd (segments path)).getLast? with _ | s
  · simp
  · simp only [Bool.or_eq_true, decide_eq_true_eq, Option.some.injEq]
    constructor
    · intro h
      split at h
      · cases h
      · next hs =>
        obtain rfl : s = name := Option.some.inj h
        simpa [not_or, and_assoc] using hs
    · rintro ⟨rfl, hne, hdot, hdots⟩
      simp [hne, hdot, hdots]

/-- A path with a name consists of the way up to its directory and the name. Both may have
segments behind them that count for nothing. -/
theorem segments_of_fileName? (h : fileName? path = some name) :
    ∃ up blank more, segments path = up ++ blank ++ name :: more ∧
      (parent? path).getD "" = ofSegments up ∧ up.head? = (up ++ blank).head? ∧
      (∀ s ∈ up, '/' ∉ s.toList) ∧ (∀ s ∈ blank, s = "" ∨ s = ".") ∧
      ∀ s ∈ more, s = "" ∨ s = "." := by
  obtain ⟨hlast, hne, -, -⟩ := fileName?_eq_some.1 h
  obtain ⟨more, hmore, hmore'⟩ := exists_trimEnd (segments path)
  obtain ⟨before, hbefore⟩ := List.getLast?_eq_some_iff.1 hlast
  obtain ⟨blank, hblank, hblank'⟩ := exists_trimEnd before
  have hsegments : segments path = trimEnd before ++ blank ++ name :: more := by
    rw [← hblank, hmore, hbefore]
    simp
  refine ⟨trimEnd before, blank, more, hsegments, ?_, ?_, ?_, hblank', hmore'⟩
  · unfold parent?
    rw [hbefore]
    split
    · next hs => simp at hs
    · next hs => exact absurd (by simpa using congrArg List.getLast? hs) hne
    · rw [List.dropLast_concat]
      split
      · next hs => rw [hs]; rfl
      · rfl
  · rw [← hblank, head?_trimEnd]
  · intro s hs
    have hmem : s ∈ segments path := by simp [hsegments, hs]
    exact slash_not_mem_of_mem_segments hmem

/-- The segments of a path with a name are those of its directory, and the name. There may
be dots behind both. -/
theorem filled_of_fileName? (h : fileName? path = some name) :
    ∃ dots more, filled path = filled ((parent? path).getD "") ++ dots ++ name :: more ∧
      (∀ s ∈ dots, s = ".") ∧ ∀ s ∈ more, s = "." := by
  obtain ⟨up, blank, more, hsegments, hparent, -, hslash, hblank, hmore⟩ :=
    segments_of_fileName? h
  obtain ⟨-, hne, -, -⟩ := fileName?_eq_some.1 h
  refine ⟨blank.filter (· ≠ ""), more.filter (· ≠ ""), ?_, eq_dot_of_blank hblank,
    eq_dot_of_blank hmore⟩
  rw [hparent, filled_ofSegments hslash, filled, hsegments]
  simp [List.filter_append, hne]

/-- The directory of a path is absolute if the path is. -/
theorem isAbsolute_parent (h : fileName? path = some name) :
    isAbsolute ((parent? path).getD "") = isAbsolute path := by
  obtain ⟨up, blank, more, hsegments, hparent, hhead, hslash, -, -⟩ := segments_of_fileName? h
  obtain ⟨-, hne, -, -⟩ := fileName?_eq_some.1 h
  rw [hparent, Bool.eq_iff_iff, isAbsolute_ofSegments hslash, isAbsolute_iff, hsegments, hhead]
  rcases up ++ blank with _ | ⟨first, rest⟩
  · simp [hne]
  · simp

/-! ## The path next to another one -/

theorem slash_not_mem_of_fileName? (h : fileName? path = some name) : '/' ∉ name.toList := by
  obtain ⟨up, blank, more, hsegments, -⟩ := segments_of_fileName? h
  have hmem : name ∈ segments path := by simp [hsegments]
  exact slash_not_mem_of_mem_segments hmem

/-- A name with the ending is longer than the ending. -/
theorem append_tmp_ne (name : String) {s : String} (h : s.length < 4) : name ++ ".tmp" ≠ s := by
  rintro rfl
  rw [String.length_append, show ".tmp".length = 4 from rfl] at h
  omega

/-- The path next to another one stands in the same directory, under a name with an ending.
A path without a name is itself taken for the directory. -/
theorem exists_temporary (path : String) :
    ∃ up name, filled (temporary path) = filled up ++ [name ++ ".tmp"] ∧
      FileTree.steps (temporary path) = filled (temporary path) ∧
      isAbsolute (temporary path) = isAbsolute path ∧ isAbsolute up = isAbsolute path ∧
      (fileName? path = some name ∧ up = (parent? path).getD "" ∨
        fileName? path = none ∧ name = "" ∧ up = path) := by
  unfold temporary
  split
  · next name h =>
    have hslash : '/' ∉ (name ++ ".tmp").toList := by
      simpa [String.toList_append] using slash_not_mem_of_fileName? h
    have hfilled := filled_join ((parent? path).getD "") hslash (append_tmp_ne name (by decide))
    refine ⟨(parent? path).getD "", name, hfilled, ?_, ?_, isAbsolute_parent h, .inl ⟨h, rfl⟩⟩
    · rw [hfilled, steps_join _ hslash (append_tmp_ne name (by decide))]
    · rw [isAbsolute_join _ hslash, isAbsolute_parent h]
  · next h =>
    have hslash : '/' ∉ ".tmp".toList := by decide
    have hfilled := filled_join path hslash (by decide)
    refine ⟨path, "", hfilled, ?_, isAbsolute_join path hslash, rfl, .inr ⟨h, rfl, rfl⟩⟩
    rw [hfilled, steps_join path hslash (by decide)]

/-! ## Paths that ask for a directory -/

/-- Whether a path asks for a directory, as one does that ends in a slash or in dots. -/
def asksForDirectory (path : String) : Bool :=
  (FileTree.steps path).getLast?.all fun s => s = "." || s = ".."

theorem trimEnd_concat {ss : List String} (hne : name ≠ "") (hdot : name ≠ ".") :
    trimEnd (ss ++ [name]) = ss ++ [name] := by
  cases ss <;> simp [trimEnd, hne, hdot]

/-- A path that asks for no directory ends in the name of a file. -/
theorem steps_of_asksForDirectory (h : asksForDirectory path = false) :
    ∃ name dots, fileName? path = some name ∧ FileTree.steps path = filled path ∧
      filled path = filled ((parent? path).getD "") ++ dots ++ [name] ∧ ∀ s ∈ dots, s = "." := by
  obtain ⟨before, last, hsegments⟩ :=
    (List.eq_nil_or_concat' (segments path)).resolve_left (segments_ne_nil path)
  unfold asksForDirectory at h
  rw [steps_eq, hsegments] at h ⊢
  by_cases hlast : last = ""
  · simp [hlast] at h
  · obtain ⟨hdot, hdots⟩ : last ≠ "." ∧ last ≠ ".." := by
      simpa [filled, hsegments, hlast] using h
    have hname : fileName? path = some last := by
      rw [fileName?_eq_some, hsegments, trimEnd_concat hlast hdot]
      exact ⟨List.getLast?_concat, hlast, hdot, hdots⟩
    obtain ⟨dots, more, hfilled, hdots', hmore⟩ := filled_of_fileName? hname
    obtain rfl : more = [] := by
      rcases List.eq_nil_or_concat' more with rfl | ⟨more, d, rfl⟩
      · rfl
      · -- otherwise the last segment would be a dot
        have hend : (filled path).getLast? = some d := by
          rw [hfilled, ← List.cons_append, ← List.append_assoc, List.getLast?_concat]
        have hd : d = "." := hmore d (by simp)
        simp [filled, hsegments, hlast, hd, hdot] at hend
    exact ⟨last, dots, hname, by simp [hlast], by simpa using hfilled, hdots'⟩

end StableNames.Path
