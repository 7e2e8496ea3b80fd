-- The places that paths denote, whether or not anything is there. Where
-- following a path gets to an end at all, it ends at that place. How far
-- it gets depends on nothing but the directories of a tree.
import StableNames.Proofs.Files.Paths

namespace StableNames.FileTree

variable {t t' : FileTree} {l m : Location} {path : String} {s : String} {ss : List String}

/-! ## Following segments -/

/-- The place that a segment leads to from another place. -/
def next (l : Location) (s : String) : Location :=
  if s = "." then l else if s = ".." then l.dropLast else l ++ [s]

theorem follow_cons_eq_ok :
    t.follow l (s :: ss) = .ok m ↔
      t.node? l = some .directory ∧ t.follow (next l s) ss = .ok m := by
  rw [follow, next]
  rcases t.node? l with _ | _ | _
  · simp
  · simp
  · by_cases hdot : s = "."
    · simp [hdot]
    · by_cases hdots : s = ".." <;> simp [hdot, hdots]

theorem follow_eq_ok (h : t.follow l ss = .ok m) : m = ss.foldl next l := by
  induction ss generalizing l with
  | nil =>
    rw [follow] at h
    exact (Except.ok.inj h).symm
  | cons s ss ih => exact ih (follow_cons_eq_ok.1 h).2

theorem follow_append_eq_ok {ss' : List String} :
    t.follow l (ss ++ ss') = .ok m ↔ ∃ k, t.follow l ss = .ok k ∧ t.follow k ss' = .ok m := by
  induction ss generalizing l with
  | nil => simp [follow]
  | cons s ss ih =>
    rw [List.cons_append, follow_cons_eq_ok, ih]
    constructor
    · rintro ⟨hdirectory, k, hk, hm⟩
      exact ⟨k, follow_cons_eq_ok.2 ⟨hdirectory, hk⟩, hm⟩
    · rintro ⟨k, hk, hm⟩
      obtain ⟨hdirectory, hk⟩ := follow_cons_eq_ok.1 hk
      exact ⟨hdirectory, k, hk, hm⟩

/-- Dots before a segment ask for nothing that the segment does not ask for. -/
theorem follow_dots_append {dots : List String} (h : ∀ d ∈ dots, d = ".") :
    t.follow l (dots ++ s :: ss) = .ok m ↔ t.follow l (s :: ss) = .ok m := by
  induction dots with
  | nil => rfl
  | cons d dots ih =>
    rw [List.forall_mem_cons] at h
    obtain ⟨rfl, hdots⟩ := h
    rw [List.cons_append, follow_cons_eq_ok, show next l "." = l from rfl, ih hdots]
    constructor
    · rintro ⟨-, h⟩
      exact h
    · intro h
      exact ⟨(follow_cons_eq_ok.1 h).1, h⟩

theorem foldl_next_dots {dots : List String} (h : ∀ d ∈ dots, d = ".") :
    dots.foldl next l = l := by
  induction dots with
  | nil => rfl
  | cons d dots ih =>
    rw [List.forall_mem_cons] at h
    obtain ⟨rfl, hdots⟩ := h
    exact ih hdots

/-! ## Places -/

/-- The place that a path denotes. -/
def place (t : FileTree) (path : String) : Location :=
  (steps path).foldl next (if Path.isAbsolute path then [] else t.here)

/-- When a path leads to a place. -/
theorem locate_eq_ok :
    t.locate path = .ok l ↔
      path ≠ "" ∧ '\x00' ∉ path.toList ∧ (∀ s ∈ steps path, s.utf8ByteSize ≤ nameLimit) ∧
        t.follow (if Path.isAbsolute path then [] else t.here) (steps path) = .ok l := by
  unfold locate
  split
  · next hpath => simp [hpath]
  · next hpath =>
    split
    · next hbad =>
      simp only [Bool.or_eq_true, List.contains_iff_mem, List.any_eq_true,
        decide_eq_true_eq] at hbad
      constructor
      · simp
      · rintro ⟨-, hzero, hlong, -⟩
        rcases hbad with hbad | ⟨s, hs, hbad⟩
        · exact absurd hbad hzero
        · exact absurd (hlong s hs) (by omega)
    · next hgood =>
      simp only [Bool.or_eq_true, List.contains_iff_mem, List.any_eq_true, decide_eq_true_eq,
        not_or, not_exists, not_and, Nat.not_lt] at hgood
      obtain ⟨hzero, hlong⟩ := hgood
      constructor
      · intro h
        exact ⟨hpath, hzero, hlong, h⟩
      · rintro ⟨-, -, -, h⟩
        exact h

theorem eq_place_of_locate (h : t.locate path = .ok l) : l = t.place path :=
  follow_eq_ok (locate_eq_ok.1 h).2.2.2

theorem place_eq_filled (t : FileTree) (path : String) :
    t.place path =
      (Path.filled path).foldl next (if Path.isAbsolute path then [] else t.here) := by
  rw [place, Path.steps_eq, List.foldl_append]
  exact foldl_next_dots (by split <;> simp)

/-! ## Two trees with the same ways -/

/-- Every way through the directories of the first tree can be gone in the second one. -/
structure Ways (t t' : FileTree) : Prop where
  here : t'.here = t.here
  directory : ∀ l, t.node? l = some .directory → t'.node? l = some .directory

namespace Ways

theorem refl (t : FileTree) : Ways t t := ⟨rfl, fun _ h => h⟩

theorem trans {t'' : FileTree} (h : Ways t t') (h' : Ways t' t'') : Ways t t'' :=
  ⟨h'.here.trans h.here, fun l hl => h'.directory l (h.directory l hl)⟩

theorem place (h : Ways t t') (path : String) : t'.place path = t.place path := by
  rw [FileTree.place, FileTree.place, h.here]

theorem follow (h : Ways t t') (hl : t.follow l ss = .ok m) : t'.follow l ss = .ok m := by
  induction ss generalizing l with
  | nil => exact hl
  | cons s ss ih =>
    obtain ⟨hdirectory, hrest⟩ := follow_cons_eq_ok.1 hl
    exact follow_cons_eq_ok.2 ⟨h.directory l hdirectory, ih hrest⟩

theorem locate (h : Ways t t') (hl : t.locate path = .ok l) : t'.locate path = .ok l := by
  rw [locate_eq_ok] at hl ⊢
  obtain ⟨hpath, hzero, hlong, hfollow⟩ := hl
  refine ⟨hpath, hzero, hlong, ?_⟩
  rw [h.here]
  exact h.follow hfollow

end Ways

/-! ## The place next to another one -/

theorem next_append_tmp (l : Location) (name : String) :
    next l (name ++ ".tmp") = l ++ [name ++ ".tmp"] := by
  rw [next, if_neg (Path.append_tmp_ne name (by decide)),
    if_neg (Path.append_tmp_ne name (by decide))]

/-- A path and the one next to it denote places in the same directory. -/
theorem exists_place_temporary (t : FileTree) (path : String) :
    ∃ up name, t.place (Path.temporary path) = up ++ [name ++ ".tmp"] ∧
      (t.place path = up ++ [name] ∨ t.place path = up) := by
  obtain ⟨up, name, hfilled, -, habsolute, hup, hcase⟩ := Path.exists_temporary path
  refine ⟨t.place up, name, ?_, ?_⟩
  · rw [place_eq_filled, hfilled, List.foldl_append, habsolute, ← hup, ← place_eq_filled]
    exact next_append_tmp _ _
  · rcases hcase with ⟨hname, hparent⟩ | ⟨-, -, rfl⟩
    · left
      obtain ⟨dots, more, hpath, hdots, hmore⟩ := Path.filled_of_fileName? hname
      obtain ⟨-, -, hdot, hdots'⟩ := Path.fileName?_eq_some.1 hname
      rw [place_eq_filled, hpath, ← hparent, ← hup, List.foldl_append, List.foldl_append,
        ← place_eq_filled, foldl_next_dots hdots, List.foldl_cons, foldl_next_dots hmore, next,
        if_neg hdot, if_neg hdots']
    · exact .inr rfl

theorem place_temporary_ne (t : FileTree) (path : String) :
    t.place (Path.temporary path) ≠ t.place path := by
  obtain ⟨up, name, htemporary, hplace | hplace⟩ := exists_place_temporary t path
  · rw [htemporary, hplace]
    intro h
    have hname : name ++ ".tmp" = name := (List.cons.inj (List.append_cancel_left h)).1
    have hlength := congrArg String.length hname
    rw [String.length_append, show ".tmp".length = 4 from rfl] at hlength
    omega
  · rw [htemporary, hplace]
    simp

theorem endsInDots_eq (path : String) :
    endsInDots path = (Path.filled path).getLast?.all fun s => s = "." || s = ".." := by
  unfold endsInDots Path.filled
  split
  · next h => rw [h]; rfl
  · next h => rw [h]; rfl

theorem endsInDots_temporary (path : String) : endsInDots (Path.temporary path) = false := by
  obtain ⟨up, name, hfilled, -⟩ := Path.exists_temporary path
  rw [endsInDots_eq, hfilled, List.getLast?_concat]
  have hdot := Path.append_tmp_ne name (s := ".") (by decide)
  have hdots := Path.append_tmp_ne name (s := "..") (by decide)
  simp [hdot, hdots]

theorem endsInDots_eq_false (h : Path.asksForDirectory path = false) :
    endsInDots path = false := by
  obtain ⟨name, dots, hfile, -, hfilled, -⟩ := Path.steps_of_asksForDirectory h
  obtain ⟨-, -, hdot, hdots⟩ := Path.fileName?_eq_some.1 hfile
  rw [endsInDots_eq, hfilled, List.getLast?_concat]
  simp [hdot, hdots]

/-- Where the path next to another one leads somewhere, so does the other one, unless it
asks for a directory. -/
theorem locate_of_temporary (h : t.locate (Path.temporary path) = .ok l)
    (hname : Path.asksForDirectory path = false) : t.locate path = .ok (t.place path) := by
  obtain ⟨name, dots, hfile, hsteps, hfilled, hdots⟩ := Path.steps_of_asksForDirectory hname
  obtain ⟨up, name', htemporary, htemporarySteps, habsolute, -, hcase⟩ := Path.exists_temporary path
  obtain ⟨rfl, rfl⟩ : name = name' ∧ up = (Path.parent? path).getD "" := by
    rw [hfile] at hcase
    simpa [eq_comm] using hcase
  obtain ⟨-, hzero, hlong, hfollow⟩ := locate_eq_ok.1 h
  rw [htemporarySteps] at hlong hfollow
  rw [← Path.exists_mem_filled_iff (by decide)] at hzero
  -- each segment is one of the other path, or a dot, or the name without its ending
  have hsegment : ∀ s ∈ Path.filled path,
      '\x00' ∉ s.toList ∧ s.utf8ByteSize ≤ nameLimit := by
    intro s hs
    rw [hfilled, List.mem_append, List.mem_append, List.mem_singleton] at hs
    rcases hs with (hs | hs) | rfl
    · have hmem : s ∈ Path.filled (Path.temporary path) := htemporary ▸ List.mem_append_left _ hs
      exact ⟨fun hz => hzero ⟨s, hmem, hz⟩, hlong s hmem⟩
    · obtain rfl := hdots s hs
      decide
    · have hmem : s ++ ".tmp" ∈ Path.filled (Path.temporary path) :=
        htemporary ▸ List.mem_append_right _ (List.mem_singleton_self _)
      refine ⟨fun hz => hzero ⟨_, hmem, by simp [String.toList_append, hz]⟩, ?_⟩
      have hsize := hlong _ hmem
      rw [String.utf8ByteSize_append] at hsize
      omega
  rw [htemporary] at hfollow
  obtain ⟨k, hk, hlast⟩ := follow_append_eq_ok.1 hfollow
  have hdirectory := (follow_cons_eq_ok.1 hlast).1
  have hlocate : t.locate path = .ok (next k name) := by
    refine locate_eq_ok.2 ⟨?_, ?_, ?_, ?_⟩
    · rintro rfl
      simp [show Path.asksForDirectory "" = true by decide] at hname
    · rw [← Path.exists_mem_filled_iff (by decide)]
      rintro ⟨s, hs, hz⟩
      exact (hsegment s hs).1 hz
    · intro s hs
      exact (hsegment s (hsteps ▸ hs)).2
    · rw [hsteps, hfilled, List.append_assoc]
      refine follow_append_eq_ok.2 ⟨k, habsolute ▸ hk, ?_⟩
      exact (follow_dots_append hdots).2 (follow_cons_eq_ok.2 ⟨hdirectory, rfl⟩)
  rw [hlocate, eq_place_of_locate hlocate]

end StableNames.FileTree
