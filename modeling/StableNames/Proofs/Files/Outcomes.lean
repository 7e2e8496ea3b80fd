-- What is left behind when several files were to change at once. Nothing
-- but the targets and the places next to them is touched. Where it stops
-- in the middle, it can be told which targets have their new content.
import StableNames.Proofs.Files.Staging

namespace StableNames.FileTree

variable {t t₁ t₂ : FileTree} {files done rest : List (String × String)} {f : String × String}
  {fault : FileFault}

/-! ## Files that landed -/

/-- The files have their new content, nothing waits next to them, and every other file is
as it was. -/
structure Committed (t t₁ : FileTree) (files : List (String × String)) : Prop where
  written : ∀ f ∈ files, t₁.find f.1 = .ok (.file f.2.toUTF8)
  cleared : ∀ f ∈ files, t₁.content (t.beside f.1) = none
  kept : ∀ l, (∀ f ∈ files, l ≠ t.place f.1 ∧ l ≠ t.beside f.1) → t₁.content l = t.content l

theorem find_of_content {path : String} {bytes : ByteArray}
    (hlocate : t.locate path = .ok (t.place path))
    (hcontent : t.content (t.place path) = some bytes) : t.find path = .ok (.file bytes) := by
  simp only [find, hlocate, ok_bind, content_eq_some.1 hcontent]
  rfl

theorem Progress.find_landed {landed waiting dropped : List (String × String)}
    (h : Progress t t₁ landed waiting dropped) (hf : f ∈ landed) :
    t₁.find f.1 = .ok (.file f.2.toUTF8) := by
  obtain ⟨hlocate, hcontent⟩ := h.arrived f hf
  rw [← h.ways.place] at hlocate hcontent
  exact find_of_content hlocate hcontent

theorem Progress.committed (h : Progress t t₁ files [] []) : Committed t t₁ files where
  written _ hf := h.find_landed hf
  cleared f hf := h.cleared f (by simpa using hf)
  kept l hl := h.kept l (fun f hf => (hl f hf).1) fun f hf => (hl f (by simpa using hf)).2

/-! ## Files that were given up -/

/-- New content was written for the files of `done`, and was taken back. All targets are as
they were, and so is every file but those that stood where the content was written. -/
structure TakenBack (t t₁ : FileTree) (files done : List (String × String)) : Prop where
  unchanged : ∀ f ∈ files, t₁.content (t.place f.1) = t.content (t.place f.1)
  cleared : ∀ f ∈ done, t₁.content (t.beside f.1) = none
  kept : ∀ l, (∀ f ∈ done, l ≠ t.beside f.1) → t₁.content l = t.content l

/-- The files of `done` have their new content, and those of `rest` what they had. Nothing
waits next to any of them, and every other file is as it was. -/
structure Halted (t t₁ : FileTree) (done rest : List (String × String)) : Prop where
  written : ∀ f ∈ done, t₁.find f.1 = .ok (.file f.2.toUTF8)
  unchanged : ∀ f ∈ rest, t₁.content (t.place f.1) = t.content (t.place f.1)
  cleared : ∀ f ∈ done ++ rest, t₁.content (t.beside f.1) = none
  kept : ∀ l, (∀ f ∈ done ++ rest, l ≠ t.place f.1 ∧ l ≠ t.beside f.1) →
    t₁.content l = t.content l

/-- No target is a place at which the content for another one waits. -/
theorem Apart.place_ne_beside (apart : t.Apart (files.map (·.1))) (hf : f ∈ files)
    {g : String × String} (hg : g ∈ files) : t.place f.1 ≠ t.beside g.1 := by
  obtain ⟨before, after, rfl⟩ := List.append_of_mem hf
  rcases List.mem_append.1 hg with hg | hg
  · exact (apart.separate_others g (List.mem_append_left _ hg)).beside_place.symm
  · rcases List.mem_cons.1 hg with rfl | hg
    · exact (beside_ne t g.1).symm
    · exact (apart.separate_others g (List.mem_append_right _ hg)).beside_place.symm

theorem Progress.takenBack (h : Progress t t₁ [] [] done)
    (apart : t.Apart ((done ++ rest).map (·.1))) : TakenBack t t₁ (done ++ rest) done where
  unchanged f hf := by
    apply h.kept _ (by simp)
    intro g hg
    exact apart.place_ne_beside hf (List.mem_append_left _ hg)
  cleared := h.cleared
  kept l hl := h.kept l (by simp) hl

theorem Progress.halted (h : Progress t t₁ done [] rest)
    (apart : t.Apart ((done ++ rest).map (·.1))) : Halted t t₁ done rest where
  written _ hf := h.find_landed hf
  unchanged f hf := by
    apply h.kept
    · intro g hg
      rw [List.map_append] at apart
      exact (apart.separate (List.mem_map_of_mem hg) (List.mem_map_of_mem hf)).place_place.symm
    · intro g hg
      exact apart.place_ne_beside (List.mem_append_right _ hf) (by simpa using hg)
  cleared := h.cleared
  kept l hl := h.kept l (fun f hf => (hl f (List.mem_append_left _ hf)).1)
    fun f hf => (hl f (by simpa using hf)).2

/-! ## Every outcome -/

/-- Where targets and the places next to them are all different, changing several files
touches nothing else. Where it succeeds, all files are committed. Where the content of one
cannot be written, all that was written is taken back. Where one cannot be moved, those before
it have landed and the others are as they were. There is no other course, and a single file
is changed as a list of one. -/
theorem only_targets_change (apart : t.Apart (files.map (·.1))) :
    (∀ t₁, t.replaceAll files = (.ok (), t₁) → t.Committed t₁ files) ∧
    (∀ done f rest t₁ t₂ fault, files = done ++ f :: rest → OneByOne Staged t done t₁ →
      t₁.stage f.1 f.2 = (.error fault, t₂) →
        ∃ t₃, t.replaceAll files = (.error fault, t₃) ∧ t.TakenBack t₃ files done) ∧
    (∀ done f rest t₁ t₂ fault, files = done ++ f :: rest → OneByOne Staged t files t₁ →
      OneByOne Moved t₁ done t₂ → t₂.rename (Path.temporary f.1) f.1 = .error fault →
        ∃ t₃, t.replaceAll files = (.error fault, t₃) ∧ t.Halted t₃ done (f :: rest)) ∧
    Course t files (t.replaceAll files) ∧
    ∀ path text, t.replace path text = t.replaceAll [(path, text)] := by
  refine ⟨?committed, ?unwritten, ?unmoved, course_replaceAll t files, replace_eq_replaceAll t⟩
  case committed =>
    intro t₁ h
    exact ((replaceAll_spec apart).1 t₁ h).committed
  case unwritten =>
    rintro done f rest t₁ t₂ fault rfl hstaged hfault
    exact ⟨_, (Course.unwritten rfl hstaged hfault).eq,
      (Progress.of_unwritten hstaged hfault apart).takenBack apart⟩
  case unmoved =>
    rintro done f rest t₁ t₂ fault rfl hstaged hmoved hfault
    exact ⟨_, (Course.unmoved rfl hstaged hmoved hfault).eq,
      (Progress.of_unmoved hstaged hmoved apart).halted apart⟩

theorem staged_of_toOption (h : (t.stage f.1 f.2).1.toOption = some ()) :
    Staged t f (t.stage f.1 f.2).2 :=
  Prod.ext (eq_ok_of_toOption h) rfl

/-- A file, and a directory that is in the way of another one. -/
def crowded : FileTree where
  nodes := .ofList [(["a.txt"], .file "old".toUTF8), (["d"], .directory),
    (["d", "x"], .file "kept".toUTF8)]

/-- New contents wait for both, and for a file in a new directory. -/
def crowdedStaged : FileTree :=
  (((crowded.stage "a.txt" "one").2.stage "d" "two").2.stage "new/b.txt" "three").2

/-- The first of three files lands, and the second one is in the way of a directory. -/
theorem only_targets_change_crowded :
    crowded.Apart ["a.txt", "d", "new/b.txt"] ∧
    ∃ fault t₁, crowded.replaceAll [("a.txt", "one"), ("d", "two"), ("new/b.txt", "three")] =
        (.error fault, t₁) ∧
      crowded.Halted t₁ [("a.txt", "one")] [("d", "two"), ("new/b.txt", "three")] := by
  have apart : crowded.Apart ["a.txt", "d", "new/b.txt"] := by decide +kernel
  have hstaged : OneByOne Staged crowded
      [("a.txt", "one"), ("d", "two"), ("new/b.txt", "three")] crowdedStaged :=
    .cons (staged_of_toOption (by decide +kernel)) <|
      .cons (staged_of_toOption (by decide +kernel)) <|
      .cons (staged_of_toOption (by decide +kernel)) (.nil _)
  have hsecond : (crowdedStaged.rename (Path.temporary "a.txt") "a.txt").toOption.map
      (fun t₁ => (t₁.rename (Path.temporary "d") "d").toBool) = some false := by
    decide +kernel
  rcases hfirst : crowdedStaged.rename (Path.temporary "a.txt") "a.txt" with fault | t₁
  · rw [hfirst] at hsecond
    cases hsecond
  · rw [hfirst] at hsecond
    rcases hfault : t₁.rename (Path.temporary "d") "d" with fault | t₂
    · exact ⟨apart, fault, (only_targets_change apart).2.2.1 [("a.txt", "one")] ("d", "two")
        [("new/b.txt", "three")] _ _ _ rfl hstaged (.cons hfirst (.nil _)) hfault⟩
    · simp [hfault, Except.toOption, Except.toBool] at hsecond

end StableNames.FileTree
