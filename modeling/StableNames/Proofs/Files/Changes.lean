-- What the operations on a tree change: the content of one file or two,
-- and of directories at most that there are new ones.
import StableNames.Files.Staged
import StableNames.Proofs.Files.Places

namespace StableNames.FileTree

variable {t t' : FileTree} {l m : Location} {path : String} {bytes : ByteArray}

/-! ## What stands at a place -/

/-- The content of the file at a place. -/
def content (t : FileTree) (l : Location) : Option ByteArray :=
  match t.node? l with
  | some (.file bytes) => some bytes
  | _ => none

theorem content_eq_some : t.content l = some bytes ↔ t.node? l = some (.file bytes) := by
  unfold content
  split <;> simp_all

theorem content_of_directory (h : t.node? l = some .directory) : t.content l = none := by
  simp [content, h]

theorem node?_put (t : FileTree) {n : FileNode} (hl : l ≠ []) :
    (t.put l n).node? m = if l = m then some n else t.node? m := by
  unfold node? put
  by_cases hm : m = []
  · simp [hm, hl]
  · simp [hm, Assoc.get?_insert]

theorem node?_remove (t : FileTree) (hl : l ≠ []) :
    (t.remove l).node? m = if l = m then none else t.node? m := by
  unfold node? remove
  by_cases hm : m = []
  · simp [hm, hl]
  · simp [hm, Assoc.get?_erase]

/-- Only directories stand at the root. -/
theorem ne_root (h : t.node? l ≠ some .directory) : l ≠ [] := by
  rintro rfl
  exact h rfl

theorem ways_put {n : FileNode} (h : t.node? l ≠ some .directory) : Ways t (t.put l n) := by
  refine ⟨rfl, fun m hm => ?_⟩
  rw [node?_put t (ne_root h), if_neg, hm]
  rintro rfl
  exact h hm

theorem ways_remove (h : t.node? l ≠ some .directory) : Ways t (t.remove l) := by
  refine ⟨rfl, fun m hm => ?_⟩
  rw [node?_remove t (ne_root h), if_neg, hm]
  rintro rfl
  exact h hm

theorem content_put_file (h : t.node? l ≠ some .directory) :
    (t.put l (.file bytes)).content m = if m = l then some bytes else t.content m := by
  unfold content
  rw [node?_put t (ne_root h)]
  by_cases hm : m = l
  · simp [hm]
  · rw [if_neg hm, if_neg (Ne.symm hm)]

theorem content_remove (h : t.node? l ≠ some .directory) :
    (t.remove l).content m = if m = l then none else t.content m := by
  unfold content
  rw [node?_remove t (ne_root h)]
  by_cases hm : m = l
  · simp [hm]
  · rw [if_neg hm, if_neg (Ne.symm hm)]

/-! ## Directories -/

theorem makeDirectory_eq_ok (h : t.makeDirectory path = .ok t') :
    Ways t t' ∧ t'.content = t.content := by
  unfold makeDirectory at h
  obtain ⟨l, -, h⟩ := eq_ok_of_bind h
  split at h
  · cases h
  · next hnode =>
    obtain rfl := Except.ok.inj h
    have hl : t.node? l ≠ some .directory := by simp [hnode]
    refine ⟨ways_put hl, funext fun m => ?_⟩
    unfold content
    rw [node?_put t (ne_root hl)]
    by_cases hm : l = m
    · simp [← hm, hnode]
    · rw [if_neg hm]

/-- Directories on the way to a path change no file, whether or not all could be made. -/
theorem makeDirectories_spec (t : FileTree) (paths : List String) :
    Ways t (t.makeDirectories paths).2 ∧
      (t.makeDirectories paths).2.content = t.content := by
  induction paths with
  | nil => exact ⟨.refl t, rfl⟩
  | cons path up ih =>
    unfold makeDirectories
    split
    · next h => exact makeDirectory_eq_ok h
    · split
      · next h => rwa [h] at ih
      · next h =>
        rw [h] at ih
        obtain ⟨hways, hcontent⟩ := ih
        split
        · next h =>
          obtain ⟨hways', hcontent'⟩ := makeDirectory_eq_ok h
          exact ⟨hways.trans hways', hcontent'.trans hcontent⟩
        · split <;> exact ⟨hways, hcontent⟩
    · split <;> exact ⟨.refl t, rfl⟩

/-! ## Files -/

/-- A file that was written has the content that was meant for it. -/
theorem write_eq_ok (h : t.write path bytes = .ok t') :
    t.locate path = .ok (t.place path) ∧ Ways t t' ∧
      ∀ m, t'.content m = if m = t.place path then some bytes else t.content m := by
  unfold write at h
  obtain ⟨l, hl, h⟩ := eq_ok_of_bind h
  obtain rfl := eq_place_of_locate hl
  split at h
  · cases h
  · next hnode =>
    obtain rfl := Except.ok.inj h
    exact ⟨hl, ways_put hnode, fun m => content_put_file hnode⟩

/-- A file that was removed is gone. -/
theorem removeFile_eq_ok (h : t.removeFile path = .ok t') :
    Ways t t' ∧ ∀ m, t'.content m = if m = t.place path then none else t.content m := by
  unfold removeFile at h
  obtain ⟨l, hl, h⟩ := eq_ok_of_bind h
  obtain rfl := eq_place_of_locate hl
  split at h
  · next hnode =>
    obtain rfl := Except.ok.inj h
    have hl : t.node? (t.place path) ≠ some .directory := by simp [hnode]
    exact ⟨ways_remove hl, fun m => content_remove hl⟩
  · cases h
  · cases h

/-- Where a path leads somewhere, no file is left there after it was to be removed. -/
theorem orKeep_removeFile (hl : t.locate path = .ok (t.place path)) :
    Ways t (t.orKeep (t.removeFile path)) ∧
      ∀ m, (t.orKeep (t.removeFile path)).content m =
        if m = t.place path then none else t.content m := by
  rcases h : t.removeFile path with fault | t'
  · refine ⟨.refl t, fun m => ?_⟩
    rw [orKeep]
    split
    · next hm =>
      subst hm
      -- nothing is removed only where no file is
      simp only [removeFile, hl, ok_bind] at h
      split at h
      · cases h
      · next hnode => exact content_of_directory hnode
      · next hnode => simp [content, hnode]
    · rfl
  · exact removeFile_eq_ok h

/-- A file that was moved is at the other place, and no longer at the first one. -/
theorem rename_eq_ok {source target : String} (hs : t.locate source = .ok (t.place source))
    (hfile : t.content (t.place source) = some bytes) (h : t.rename source target = .ok t') :
    t.locate target = .ok (t.place target) ∧ Ways t t' ∧
      ∀ m, t'.content m =
        if m = t.place target then some bytes
        else if m = t.place source then none else t.content m := by
  unfold rename at h
  obtain ⟨s, hs', h⟩ := eq_ok_of_bind h
  obtain rfl := Except.ok.inj (hs.symm.trans hs')
  simp only [content_eq_some.1 hfile] at h
  split at h
  · cases h
  · obtain ⟨d, hd, h⟩ := eq_ok_of_bind h
    obtain rfl := eq_place_of_locate hd
    refine ⟨hd, ?_⟩
    split at h
    · next hsame =>
      obtain rfl := Except.ok.inj h
      refine ⟨.refl _, fun m => ?_⟩
      by_cases hm : m = t.place target
      · rw [if_pos hm, hm, hsame, hfile]
      · rw [if_neg hm, if_neg (hsame ▸ hm)]
    · next hsame =>
      have hsource : t.node? (t.place source) ≠ some .directory := by
        simp [content_eq_some.1 hfile]
      split at h
      · cases h
      · next hnode =>
        obtain rfl := Except.ok.inj h
        have htarget : (t.remove (t.place source)).node? (t.place target) ≠ some .directory := by
          rwa [node?_remove t (ne_root hsource), if_neg (Ne.symm hsame)]
        refine ⟨(ways_remove hsource).trans (ways_put htarget), fun m => ?_⟩
        rw [content_put_file htarget, content_remove hsource]

/-- A file that waits next to a path can be moved there, unless a directory is there or the
path asks for one. -/
theorem rename_temporary_eq_error {fault : FileFault}
    (hs : t.locate (Path.temporary path) = .ok (t.place (Path.temporary path)))
    (hfile : t.content (t.place (Path.temporary path)) = some bytes)
    (h : t.rename (Path.temporary path) path = .error fault) :
    Path.asksForDirectory path = true ∨ t.node? (t.place path) = some .directory := by
  by_contra! hnot
  obtain ⟨hname, hnode⟩ := hnot
  rw [ne_eq, Bool.not_eq_true] at hname
  have hlocate := locate_of_temporary hs hname
  simp only [rename, hs, hlocate, ok_bind, content_eq_some.1 hfile, endsInDots_temporary,
    endsInDots_eq_false hname, Bool.or_self, Bool.false_eq_true, if_false] at h
  split at h <;> cases h

end StableNames.FileTree
