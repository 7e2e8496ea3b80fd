-- Several files that change at once. At each moment some of them have
-- landed on their targets, some wait next to theirs, and some were given
-- up. Each step moves one file on and leaves everything else alone, so
-- what a whole run leaves behind can be read off the three lists. A run
-- takes one of three courses: it ends well, or at a file that cannot be
-- written, or at one that cannot be moved.
import Mathlib.Data.List.Nodup
import StableNames.Proofs.Files.Changes

namespace StableNames.FileTree

variable {t t₁ t₂ : FileTree} {landed waiting files : List (String × String)}
  {f : String × String} {path text : String} {fault : FileFault}

/-! ## Targets -/

/-- The place next to a target at which its new content waits. -/
def beside (t : FileTree) (path : String) : Location := t.place (Path.temporary path)

theorem Ways.beside (h : Ways t t₁) (path : String) : t₁.beside path = t.beside path :=
  h.place (Path.temporary path)

theorem beside_ne (t : FileTree) (path : String) : t.beside path ≠ t.place path :=
  place_temporary_ne t path

/-- The targets and the places next to them are all different. -/
def Apart (t : FileTree) (paths : List String) : Prop :=
  (paths.flatMap fun path => [t.place path, t.beside path]).Nodup

instance (t : FileTree) (paths : List String) : Decidable (t.Apart paths) :=
  inferInstanceAs (Decidable (List.Nodup _))

/-- Two targets that share no place, next to them neither. -/
structure Separate (t : FileTree) (p q : String) : Prop where
  place_place : t.place p ≠ t.place q
  place_beside : t.place p ≠ t.beside q
  beside_place : t.beside p ≠ t.place q
  beside_beside : t.beside p ≠ t.beside q

theorem Separate.symm {p q : String} (h : t.Separate p q) : t.Separate q p :=
  ⟨h.1.symm, h.3.symm, h.2.symm, h.4.symm⟩

theorem Apart.separate {before after : List String} {p q : String}
    (h : t.Apart (before ++ after)) (hp : p ∈ before) (hq : q ∈ after) : t.Separate p q := by
  unfold Apart at h
  rw [List.flatMap_append] at h
  have hdisjoint := List.disjoint_of_nodup_append h
  have hne : ∀ l ∈ [t.place p, t.beside p], ∀ m ∈ [t.place q, t.beside q], l ≠ m := by
    rintro l hl m hm rfl
    exact hdisjoint (List.mem_flatMap.2 ⟨p, hp, hl⟩) (List.mem_flatMap.2 ⟨q, hq, hm⟩)
  constructor <;> apply hne <;> simp

theorem Apart.of_append {before after : List String} (h : t.Apart (before ++ after)) :
    t.Apart before := by
  unfold Apart at h ⊢
  rw [List.flatMap_append] at h
  exact h.of_append_left

/-- Each target is separate from all others. -/
theorem Apart.separate_others {before after : List (String × String)}
    (h : t.Apart ((before ++ f :: after).map (·.1))) :
    ∀ g ∈ before ++ after, t.Separate g.1 f.1 := by
  intro g hg
  rcases List.mem_append.1 hg with hg | hg
  · rw [List.map_append] at h
    exact h.separate (List.mem_map_of_mem hg) List.mem_cons_self
  · rw [List.append_cons, List.map_append] at h
    exact (h.separate (by simp) (List.mem_map_of_mem hg)).symm

/-- A path that no file can be moved to: a directory is there, or it asks for one. -/
def Refuses (t : FileTree) (path : String) : Prop :=
  Path.asksForDirectory path = true ∨ t.node? (t.place path) = some .directory

theorem Refuses.mono (h : t.Refuses path) (hways : Ways t t₁) : t₁.Refuses path := by
  rcases h with h | h
  · exact .inl h
  · rw [← hways.place] at h
    exact .inr (hways.directory _ h)

/-! ## How far the files have come -/

/-- The second tree comes of the first one by a change of files. Those of `landed` have their
new content, those of `waiting` have it next to them, and those of `dropped` were given up.
Every other file is as it was. -/
structure Progress (t t₁ : FileTree) (landed waiting dropped : List (String × String)) :
    Prop where
  ways : Ways t t₁
  arrived : ∀ f ∈ landed,
    t₁.locate f.1 = .ok (t.place f.1) ∧ t₁.content (t.place f.1) = some f.2.toUTF8
  ready : ∀ f ∈ waiting,
    t₁.locate (Path.temporary f.1) = .ok (t.beside f.1) ∧
      t₁.content (t.beside f.1) = some f.2.toUTF8
  cleared : ∀ f ∈ landed ++ dropped, t₁.content (t.beside f.1) = none
  kept : ∀ l, (∀ f ∈ landed, l ≠ t.place f.1) →
    (∀ f ∈ landed ++ waiting ++ dropped, l ≠ t.beside f.1) → t₁.content l = t.content l

theorem Progress.refl (t : FileTree) : Progress t t [] [] [] where
  ways := .refl t
  arrived := by simp
  ready := by simp
  cleared := by simp
  kept := by simp

/-! ## Writing next to the targets -/

/-- Nothing but directories is made before the content is written, or the attempt fails. -/
theorem stage_cases (t : FileTree) (path text : String) :
    ∃ made, Ways t made ∧ made.content = t.content ∧
      ((∃ fault, t.stage path text = (.error fault, made)) ∨
        ∃ written, made.write (Path.temporary path) text.toUTF8 = .ok written ∧
          t.stage path text = (.ok (), written)) := by
  have hmade := makeDirectories_spec t
    (Path.upwards (((Path.parent? path).getD "").length + 1) ((Path.parent? path).getD ""))
  simp only [stage]
  split
  · next fault made hdirectories =>
    rw [hdirectories] at hmade
    exact ⟨made, hmade.1, hmade.2, .inl ⟨fault, rfl⟩⟩
  · next made hdirectories =>
    rw [hdirectories] at hmade
    refine ⟨made, hmade.1, hmade.2, ?_⟩
    split
    · next written hwrite => exact .inr ⟨written, hwrite, rfl⟩
    · next fault hwrite => exact .inl ⟨fault, rfl⟩

theorem stage_eq_ok (h : t.stage path text = (.ok (), t₁)) :
    t₁.locate (Path.temporary path) = .ok (t.beside path) ∧ Ways t t₁ ∧
      ∀ m, t₁.content m = if m = t.beside path then some text.toUTF8 else t.content m := by
  obtain ⟨made, hways, hcontent, ⟨fault, hstage⟩ | ⟨written, hwrite, hstage⟩⟩ :=
    stage_cases t path text
  · rw [hstage] at h
    cases h
  · rw [hstage] at h
    obtain ⟨-, rfl⟩ := Prod.mk.inj h
    obtain ⟨hlocate, hways', hcontent'⟩ := write_eq_ok hwrite
    have hbeside : made.place (Path.temporary path) = t.beside path := hways.beside path
    rw [hbeside] at hlocate hcontent'
    rw [hcontent] at hcontent'
    exact ⟨hways'.locate hlocate, hways.trans hways', hcontent'⟩

/-- Content that could not be written changes no file. -/
theorem stage_eq_error (h : t.stage path text = (.error fault, t₁)) :
    Ways t t₁ ∧ t₁.content = t.content := by
  obtain ⟨made, hways, hcontent, ⟨fault, hstage⟩ | ⟨written, hwrite, hstage⟩⟩ :=
    stage_cases t path text
  · rw [hstage] at h
    obtain ⟨-, rfl⟩ := Prod.mk.inj h
    exact ⟨hways, hcontent⟩
  · rw [hstage] at h
    cases h

/-- What was written for targets is gone once it is given up. -/
theorem unstage_spec (paths : List String)
    (h : ∀ path ∈ paths, t.locate (Path.temporary path) = .ok (t.beside path)) :
    Ways t (t.unstage paths) ∧
      ∀ m, (t.unstage paths).content m =
        if m ∈ paths.map t.beside then none else t.content m := by
  induction paths generalizing t with
  | nil => exact ⟨.refl t, fun m => by simp [unstage]⟩
  | cons path paths ih =>
    rw [List.forall_mem_cons] at h
    obtain ⟨hpath, hpaths⟩ := h
    obtain ⟨hways, hcontent⟩ := orKeep_removeFile hpath
    obtain ⟨hways', hcontent'⟩ := ih fun p hp => by
      rw [hways.beside]
      exact hways.locate (hpaths p hp)
    refine ⟨hways.trans hways', fun m => ?_⟩
    rw [funext hways.beside] at hcontent'
    change (unstage _ paths).content m = _
    rw [hcontent', hcontent, List.map_cons]
    change (if _ then none else if m = t.beside path then none else t.content m) = _
    by_cases hm : m ∈ paths.map t.beside
    · rw [if_pos hm, if_pos (List.mem_cons_of_mem _ hm)]
    · by_cases hm' : m = t.beside path
      · rw [if_neg hm, if_pos hm', if_pos (hm' ▸ List.mem_cons_self)]
      · rw [if_neg hm, if_neg hm', if_neg (List.not_mem_cons_of_ne_of_not_mem hm' hm)]

namespace Progress

/-- One more file waits next to its target. -/
theorem stage (h : Progress t t₁ [] waiting [])
    (hnew : ∀ g ∈ waiting, t.beside f.1 ≠ t.beside g.1)
    (hstage : t₁.stage f.1 f.2 = (.ok (), t₂)) : Progress t t₂ [] (waiting ++ [f]) [] := by
  obtain ⟨hlocate, hways, hcontent⟩ := stage_eq_ok hstage
  rw [h.ways.beside] at hlocate hcontent
  refine ⟨h.ways.trans hways, by simp, ?_, by simp, ?_⟩
  · intro g hg
    rcases List.mem_append.1 hg with hg | hg
    · obtain ⟨hglocate, hgcontent⟩ := h.ready g hg
      refine ⟨hways.locate hglocate, ?_⟩
      rw [hcontent, if_neg (Ne.symm (hnew g hg)), hgcontent]
    · obtain rfl := List.mem_singleton.1 hg
      exact ⟨hlocate, by rw [hcontent, if_pos rfl]⟩
  · intro l hl hl'
    rw [hcontent, if_neg, h.kept l hl]
    · intro g hg
      exact hl' g (by simp_all)
    · exact hl' f (by simp)

/-- A file that could not be written leaves the others where they are. -/
theorem stage_error (h : Progress t t₁ [] waiting [])
    (hstage : t₁.stage path text = (.error fault, t₂)) : Progress t t₂ [] waiting [] := by
  obtain ⟨hways, hcontent⟩ := stage_eq_error hstage
  refine ⟨h.ways.trans hways, by simp, ?_, by simp, ?_⟩
  · intro g hg
    obtain ⟨hlocate, hgcontent⟩ := h.ready g hg
    exact ⟨hways.locate hlocate, by rw [hcontent, hgcontent]⟩
  · intro l hl hl'
    rw [hcontent, h.kept l hl hl']

/-- One more file lands on its target. -/
theorem rename (h : Progress t t₁ landed (f :: waiting) [])
    (hnew : ∀ g ∈ landed ++ waiting, t.Separate g.1 f.1)
    (hrename : t₁.rename (Path.temporary f.1) f.1 = .ok t₂) :
    Progress t t₂ (landed ++ [f]) waiting [] := by
  obtain ⟨hlocate, hfile⟩ := h.ready f List.mem_cons_self
  have hsource : t₁.place (Path.temporary f.1) = t.beside f.1 := h.ways.beside f.1
  rw [← hsource] at hlocate hfile
  obtain ⟨htarget, hways, hcontent⟩ := rename_eq_ok hlocate hfile hrename
  rw [h.ways.place] at htarget hcontent
  rw [hsource] at hcontent
  have hother : ∀ l, l ≠ t.place f.1 → l ≠ t.beside f.1 → t₂.content l = t₁.content l := by
    intro l hl hl'
    rw [hcontent, if_neg hl, if_neg hl']
  constructor
  case ways => exact h.ways.trans hways
  case arrived =>
    intro g hg
    rcases List.mem_append.1 hg with hg | hg
    · obtain ⟨hglocate, hgcontent⟩ := h.arrived g hg
      have hg := hnew g (List.mem_append_left _ hg)
      exact ⟨hways.locate hglocate, by rw [hother _ hg.place_place hg.place_beside, hgcontent]⟩
    · obtain rfl := List.mem_singleton.1 hg
      exact ⟨hways.locate htarget, by rw [hcontent, if_pos rfl]⟩
  case ready =>
    intro g hg
    obtain ⟨hglocate, hgcontent⟩ := h.ready g (List.mem_cons_of_mem _ hg)
    have hg := hnew g (List.mem_append_right _ hg)
    exact ⟨hways.locate hglocate, by rw [hother _ hg.beside_place hg.beside_beside, hgcontent]⟩
  case cleared =>
    intro g hg
    rw [List.append_nil] at hg
    rcases List.mem_append.1 hg with hg | hg
    · have hseparate := hnew g (List.mem_append_left _ hg)
      rw [hother _ hseparate.beside_place hseparate.beside_beside]
      exact h.cleared g (List.mem_append_left _ hg)
    · obtain rfl := List.mem_singleton.1 hg
      rw [hcontent, if_neg (beside_ne t g.1), if_pos rfl]
  case kept =>
    intro l hl hl'
    rw [hother l (hl f (by simp)) (hl' f (by simp)), h.kept l]
    · intro g hg
      exact hl g (List.mem_append_left _ hg)
    · intro g hg
      exact hl' g (by simpa using hg)

theorem locate_ready (h : Progress t t₁ landed waiting []) :
    ∀ path ∈ waiting.map (·.1), t₁.locate (Path.temporary path) = .ok (t₁.beside path) := by
  intro path hpath
  obtain ⟨g, hg, rfl⟩ := List.mem_map.1 hpath
  rw [h.ways.beside]
  exact (h.ready g hg).1

/-- The files that wait are given up. -/
theorem unstage (h : Progress t t₁ landed waiting [])
    (hplace : ∀ f ∈ landed, ∀ g ∈ waiting, t.place f.1 ≠ t.beside g.1) :
    Progress t (t₁.unstage (waiting.map (·.1))) landed [] waiting := by
  obtain ⟨hways, hcontent⟩ := unstage_spec _ h.locate_ready
  rw [funext h.ways.beside, List.map_map] at hcontent
  have hbeside : ∀ l, l ∈ waiting.map (t.beside ∘ (·.1)) ↔ ∃ g ∈ waiting, t.beside g.1 = l := by
    simp
  constructor
  case ways => exact h.ways.trans hways
  case arrived =>
    intro g hg
    obtain ⟨hglocate, hgcontent⟩ := h.arrived g hg
    refine ⟨hways.locate hglocate, ?_⟩
    rw [hcontent, if_neg, hgcontent]
    rw [hbeside]
    rintro ⟨g', hg', heq⟩
    exact hplace g hg g' hg' heq.symm
  case ready => simp
  case cleared =>
    intro g hg
    rw [hcontent]
    split
    · rfl
    · next hnot =>
      rcases List.mem_append.1 hg with hg | hg
      · exact h.cleared g (List.mem_append_left _ hg)
      · exact absurd ((hbeside _).2 ⟨g, hg, rfl⟩) hnot
  case kept =>
    intro l hl hl'
    rw [hcontent, if_neg, h.kept l hl]
    · intro g hg
      exact hl' g (by simpa using hg)
    · rw [hbeside]
      rintro ⟨g, hg, rfl⟩
      exact hl' g (by simp [hg]) rfl

end Progress

/-! ## One file after another -/

/-- Every file of a list can take a step, one after another. -/
inductive OneByOne (step : FileTree → String × String → FileTree → Prop) :
    FileTree → List (String × String) → FileTree → Prop
  | nil (t : FileTree) : OneByOne step t [] t
  | cons {t t₁ t₂ : FileTree} {f : String × String} {rest : List (String × String)}
      (hfirst : step t f t₁) (hrest : OneByOne step t₁ rest t₂) : OneByOne step t (f :: rest) t₂

/-- New content is written next to a target. -/
def Staged (t : FileTree) (f : String × String) (t₁ : FileTree) : Prop :=
  t.stage f.1 f.2 = (.ok (), t₁)

/-- The content next to a target is moved over it. -/
def Moved (t : FileTree) (f : String × String) (t₁ : FileTree) : Prop :=
  t.rename (Path.temporary f.1) f.1 = .ok t₁

/-- Either all files take their step, or those before the first that cannot. -/
theorem oneByOne_or_stuck (step : FileTree → String × String → FileTree → Prop) (t : FileTree)
    (files : List (String × String)) :
    (∃ t₁, OneByOne step t files t₁) ∨
      ∃ done f rest t₁, files = done ++ f :: rest ∧ OneByOne step t done t₁ ∧
        ∀ t₂, ¬ step t₁ f t₂ := by
  induction files generalizing t with
  | nil => exact .inl ⟨t, .nil t⟩
  | cons f rest ih =>
    by_cases hfirst : ∃ t₁, step t f t₁
    · obtain ⟨t₁, hfirst⟩ := hfirst
      rcases ih t₁ with ⟨t₂, hrest⟩ | ⟨done, g, rest', t₂, rfl, hdone, hstuck⟩
      · exact .inl ⟨t₂, .cons hfirst hrest⟩
      · exact .inr ⟨f :: done, g, rest', t₂, rfl, .cons hfirst hdone, hstuck⟩
    · exact .inr ⟨[], f, rest, t, rfl, .nil t, not_exists.1 hfirst⟩

theorem stageAll_append {done : List (String × String)} (h : OneByOne Staged t done t₁)
    (staged : List String) (rest : List (String × String)) :
    t.stageAll staged (done ++ rest) = t₁.stageAll (staged ++ done.map (·.1)) rest := by
  induction h generalizing staged with
  | nil => simp
  | cons hfirst _ ih =>
    rw [List.cons_append, stageAll, hfirst]
    simp only
    rw [ih, List.map_cons, List.append_assoc]
    rfl

theorem moveAll_append {done : List (String × String)} (h : OneByOne Moved t done t₁)
    (rest : List String) : t.moveAll (done.map (·.1) ++ rest) = t₁.moveAll rest := by
  induction h with
  | nil => rfl
  | cons hfirst _ ih =>
    rw [List.map_cons, List.cons_append, moveAll, hfirst]
    exact ih

/-- All that changing several files can come to. -/
inductive Course (t : FileTree) (files : List (String × String)) :
    Except FileFault Unit × FileTree → Prop
  | changed {t₁ t₂ : FileTree} (hstaged : OneByOne Staged t files t₁)
      (hmoved : OneByOne Moved t₁ files t₂) : Course t files (.ok (), t₂)
  | unwritten {done rest : List (String × String)} {f : String × String} {t₁ t₂ : FileTree}
      {fault : FileFault} (hfiles : files = done ++ f :: rest)
      (hstaged : OneByOne Staged t done t₁) (hfault : t₁.stage f.1 f.2 = (.error fault, t₂)) :
      Course t files (.error fault, t₂.unstage (done.map (·.1)))
  | unmoved {done rest : List (String × String)} {f : String × String} {t₁ t₂ : FileTree}
      {fault : FileFault} (hfiles : files = done ++ f :: rest)
      (hstaged : OneByOne Staged t files t₁) (hmoved : OneByOne Moved t₁ done t₂)
      (hfault : t₂.rename (Path.temporary f.1) f.1 = .error fault) :
      Course t files (.error fault, t₂.unstage ((f :: rest).map (·.1)))

/-- Only one course can be taken. -/
theorem Course.eq {r : Except FileFault Unit × FileTree} (h : Course t files r) :
    t.replaceAll files = r := by
  unfold replaceAll
  cases h with
  | changed hstaged hmoved =>
    rw [← List.append_nil files, stageAll_append hstaged, List.append_nil, stageAll]
    simp only
    rw [← List.append_nil (List.map _ files), moveAll_append hmoved, moveAll]
  | unwritten hfiles hstaged hfault =>
    rw [hfiles, stageAll_append hstaged, stageAll, hfault]
    rfl
  | unmoved hfiles hstaged hmoved hfault =>
    rw [← List.append_nil files, stageAll_append hstaged, List.append_nil, stageAll]
    simp only
    rw [hfiles, List.map_append, moveAll_append hmoved, List.map_cons, moveAll, hfault]

theorem course_replaceAll (t : FileTree) (files : List (String × String)) :
    Course t files (t.replaceAll files) := by
  have hcourse : ∃ r, Course t files r := by
    obtain ⟨t₁, hstaged⟩ | ⟨done, f, rest, t₁, hfiles, hstaged, hstuck⟩ :=
      oneByOne_or_stuck Staged t files
    · obtain ⟨t₂, hmoved⟩ | ⟨done, f, rest, t₂, hfiles, hmoved, hstuck⟩ :=
        oneByOne_or_stuck Moved t₁ files
      · exact ⟨_, .changed hstaged hmoved⟩
      · rcases hfault : t₂.rename (Path.temporary f.1) f.1 with fault | t₃
        · exact ⟨_, .unmoved hfiles hstaged hmoved hfault⟩
        · exact absurd hfault (hstuck t₃)
    · rcases hfault : t₁.stage f.1 f.2 with ⟨fault | ⟨⟩, t₂⟩
      · exact ⟨_, .unwritten hfiles hstaged hfault⟩
      · exact absurd hfault (hstuck t₂)
  obtain ⟨r, hr⟩ := hcourse
  rw [hr.eq]
  exact hr

/-- One file alone is changed as a list of one file is. -/
theorem replace_eq_replaceAll (t : FileTree) (path text : String) :
    t.replace path text = t.replaceAll [(path, text)] := by
  unfold replace replaceAll stageAll
  rcases t.stage path text with ⟨fault | ⟨⟩, t₁⟩
  · rfl
  · simp only [stageAll, List.map_cons, List.map_nil, moveAll]
    rcases t₁.rename (Path.temporary path) path with fault | t₂
    · rfl
    · rfl

/-! ## All files -/

namespace Progress

theorem stages (h : Progress t t₁ [] waiting []) (hstaged : OneByOne Staged t₁ files t₂)
    (apart : t.Apart ((waiting ++ files).map (·.1))) :
    Progress t t₂ [] (waiting ++ files) [] := by
  induction hstaged generalizing waiting with
  | nil => rwa [List.append_nil]
  | @cons _ _ _ f rest hfirst _ ih =>
    have hnew : ∀ g ∈ waiting, t.beside f.1 ≠ t.beside g.1 := by
      intro g hg
      exact (apart.separate_others g (List.mem_append_left _ hg)).symm.beside_beside
    rw [List.append_cons] at apart ⊢
    exact ih (h.stage hnew hfirst) apart

theorem moves {rest : List (String × String)} (h : Progress t t₁ landed (files ++ rest) [])
    (hmoved : OneByOne Moved t₁ files t₂)
    (apart : t.Apart ((landed ++ (files ++ rest)).map (·.1))) :
    Progress t t₂ (landed ++ files) rest [] := by
  induction hmoved generalizing landed with
  | nil => rwa [List.append_nil]
  | @cons _ _ _ f files hfirst _ ih =>
    have hstep := h.rename apart.separate_others hfirst
    rw [List.cons_append, List.append_cons] at apart
    rw [List.append_cons]
    exact ih hstep apart

/-- All files have landed. -/
theorem of_changed (hstaged : OneByOne Staged t files t₁) (hmoved : OneByOne Moved t₁ files t₂)
    (apart : t.Apart (files.map (·.1))) : Progress t t₂ files [] [] := by
  have hready : Progress t t₁ [] files [] := (Progress.refl t).stages hstaged apart
  rw [← List.append_nil files] at hready
  exact hready.moves hmoved (by simpa using apart)

/-- One file could not be written, and those before it were given up. -/
theorem of_unwritten {done rest : List (String × String)}
    (hstaged : OneByOne Staged t done t₁) (hfault : t₁.stage f.1 f.2 = (.error fault, t₂))
    (apart : t.Apart ((done ++ f :: rest).map (·.1))) :
    Progress t (t₂.unstage (done.map (·.1))) [] [] done := by
  rw [List.map_append] at apart
  have hready : Progress t t₁ [] done [] := (Progress.refl t).stages hstaged apart.of_append
  exact (hready.stage_error hfault).unstage (by simp)

/-- One file could not be moved. It and those after it were given up. -/
theorem of_unmoved {done rest : List (String × String)}
    (hstaged : OneByOne Staged t (done ++ f :: rest) t₁) (hmoved : OneByOne Moved t₁ done t₂)
    (apart : t.Apart ((done ++ f :: rest).map (·.1))) :
    Progress t (t₂.unstage ((f :: rest).map (·.1))) done [] (f :: rest) := by
  have hready : Progress t t₁ [] (done ++ f :: rest) [] :=
    (Progress.refl t).stages hstaged apart
  have hlanded : Progress t t₂ done (f :: rest) [] := hready.moves hmoved apart
  apply hlanded.unstage
  intro g hg g' hg'
  rw [List.map_append] at apart
  exact (apart.separate (List.mem_map_of_mem hg) (List.mem_map_of_mem hg')).place_beside

end Progress

/-- Where the next file cannot be moved, its path takes no file. -/
theorem refuses_of_unmoved {done rest : List (String × String)}
    (hstaged : OneByOne Staged t (done ++ f :: rest) t₁) (hmoved : OneByOne Moved t₁ done t₂)
    (hfault : t₂.rename (Path.temporary f.1) f.1 = .error fault)
    (apart : t.Apart ((done ++ f :: rest).map (·.1))) :
    (t₂.unstage ((f :: rest).map (·.1))).Refuses f.1 := by
  have hready : Progress t t₁ [] (done ++ f :: rest) [] :=
    (Progress.refl t).stages hstaged apart
  have hlanded : Progress t t₂ done (f :: rest) [] := hready.moves hmoved apart
  obtain ⟨hlocate, hfile⟩ := hlanded.ready f List.mem_cons_self
  rw [← hlanded.ways.beside] at hlocate hfile
  have hrefuses : t₂.Refuses f.1 := rename_temporary_eq_error hlocate hfile hfault
  exact hrefuses.mono (unstage_spec _ hlanded.locate_ready).1

/-- Files that change all at once either all land, or those before the first that cannot.
None lands unless all could be written. -/
theorem replaceAll_spec (apart : t.Apart (files.map (·.1))) :
    (∀ t₁, t.replaceAll files = (.ok (), t₁) → Progress t t₁ files [] []) ∧
    ∀ fault t₁, t.replaceAll files = (.error fault, t₁) →
      ∃ done f rest, files = done ++ f :: rest ∧
        (Progress t t₁ [] [] done ∨ Progress t t₁ done [] (f :: rest) ∧ t₁.Refuses f.1) := by
  have hcourse := course_replaceAll t files
  constructor
  · intro t₁ h
    rw [h] at hcourse
    cases hcourse with
    | changed hstaged hmoved => exact .of_changed hstaged hmoved apart
  · intro fault t₁ h
    rw [h] at hcourse
    cases hcourse with
    | unwritten hfiles hstaged hfault =>
      subst hfiles
      exact ⟨_, _, _, rfl, .inl (.of_unwritten hstaged hfault apart)⟩
    | unmoved hfiles hstaged hmoved hfault =>
      subst hfiles
      exact ⟨_, _, _, rfl, .inr ⟨.of_unmoved hstaged hmoved apart,
        refuses_of_unmoved hstaged hmoved hfault apart⟩⟩

end StableNames.FileTree
