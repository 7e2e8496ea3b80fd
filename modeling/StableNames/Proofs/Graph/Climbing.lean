-- Climbing a hierarchy. Whoever shows the ancestors of a class goes up
-- with one set of classes, those on the way to where it stands, and
-- changes it as it goes: a class puts itself in, its supertypes are shown
-- one after another, each with the set that the one before left, and then
-- the class takes itself out. Every such climb ends with the set that it
-- began with, so no branch sees what another did, and the text is that of
-- the hierarchy unfolded with a set of its own for each branch.
import Mathlib.Data.Finset.Card
import Mathlib.Data.Finset.Range
import Mathlib.Data.Finset.SDiff
import StableNames.Graph.Ancestry
import StableNames.Proofs.Graph.Arena

namespace StableNames.Graph

variable {g : Graph} {c : ClassId} {path path' passed : Finset ClassId} {text : String}
  {texts : List String}

/-! ## The unfolding -/

/-- The classes of the graph among those that a class names: its superclass, then its
interfaces in the order in which they are written. -/
def above (g : Graph) (c : ClassId) : List ClassId :=
  ((g.classInfo c).superName?.toList ++ (g.classInfo c).interfaceNames).filterMap g.classOf?

theorem above_of_le (hc : g.classCount ≤ c) : g.above c = [] := by
  unfold above
  rw [classInfo_of_le hc]
  rfl

/-- Only a class of the graph has others above it. -/
theorem lt_of_mem_above {a : ClassId} (h : a ∈ g.above c) : c < g.classCount := by
  by_contra hc
  rw [above_of_le (Nat.not_lt.1 hc)] at h
  cases h

theorem supertypes_eq_above (hkin : g.kin = g.allKin.toArray) (c : ClassId) :
    g.supertypes c = g.above c := by
  by_cases hc : c < g.classCount
  · unfold supertypes above
    rw [kinOf_of_lt hkin hc, List.filterMap_append]
    simp only [withHeirs, namedKin]
    rcases (g.classInfo c).superName? with _ | name
    · rfl
    · rcases h : g.classOf? name with _ | a <;> simp [h]
  · have hc := Nat.not_lt.1 hc
    unfold supertypes
    rw [kinOf_of_le hkin hc, above_of_le hc]
    rfl

/-- What stands behind the name of a class that has these texts above it. -/
def arrows : List String → String
  | [] => ""
  | [text] => "<-" ++ text
  | texts => "<-[" ++ ",".intercalate texts ++ "]"

theorem showAncestors_eq (name : String) (texts : List String) :
    showAncestors name texts = name ++ arrows (texts.filter (· ≠ "")) := by
  unfold showAncestors
  rcases texts.filter (· ≠ "") with _ | ⟨first, _ | ⟨second, rest⟩⟩
  · exact String.append_empty.symm
  · exact String.append_assoc ..
  · simp only [arrows, String.append_assoc]

/-- A hierarchy unfolded from a class: the name alone if the class was passed on the way to it,
else the name followed by all that stands above the class, each part unfolded with the classes
that were passed on the way to it. -/
def unfolding (g : Graph) (passed : Finset ClassId) (c : ClassId) : String :=
  if _h : c ∈ passed then g.className c
  else
    let parts := (g.above c).attach.map fun a => g.unfolding (insert c passed) a.1
    g.className c ++ arrows (parts.filter (· ≠ ""))
termination_by (Finset.range g.classCount \ passed).card
decreasing_by
  have hc : c ∈ Finset.range g.classCount := Finset.mem_range.2 (lt_of_mem_above a.2)
  rw [Finset.sdiff_insert]
  exact Finset.card_erase_lt_of_mem (Finset.mem_sdiff.2 ⟨hc, _h⟩)

theorem unfolding_of_mem (h : c ∈ passed) : g.unfolding passed c = g.className c := by
  rw [unfolding, dif_pos h]

theorem unfolding_of_not_mem (h : c ∉ passed) :
    g.unfolding passed c =
      showAncestors (g.className c) ((g.above c).map (g.unfolding (insert c passed))) := by
  rw [unfolding, dif_neg h, showAncestors_eq, List.map_attach_eq_pmap, List.pmap_eq_map]

theorem unfolding_of_le (hc : g.classCount ≤ c) : g.unfolding passed c = g.className c := by
  by_cases h : c ∈ passed
  · exact unfolding_of_mem h
  · rw [unfolding_of_not_mem h, above_of_le hc]
    rfl

/-- The ancestry that is shown is the unfolding. -/
theorem ancestryFrom_eq_unfolding (hkin : g.kin = g.allKin.toArray) (path : List ClassId)
    (c : ClassId) : g.ancestryFrom path c = g.unfolding path.toFinset c := by
  fun_induction ancestryFrom g path c with
  | case1 path c h =>
    rcases h with h | hc
    · rw [unfolding_of_mem (List.mem_toFinset.2 h)]
    · rw [unfolding_of_le hc]
  | case2 path c h ih =>
    rw [not_or] at h
    rw [unfolding_of_not_mem (mt List.mem_toFinset.1 h.1), supertypes_eq_above hkin]
    congr 1
    apply List.map_congr_left
    intro a _
    rw [ih a, List.toFinset_cons]

/-! ## Climbing -/

mutual

/-- A climb from a class shows its ancestors. It is given a set of classes, and leaves one. -/
inductive Climbs (g : Graph) : Finset ClassId → ClassId → String → Finset ClassId → Prop
  | again {path : Finset ClassId} {c : ClassId} (h : c ∈ path) :
      Climbs g path c (g.className c) path
  | up {path path' : Finset ClassId} {c : ClassId} {texts : List String} (h : c ∉ path)
      (habove : ClimbsAll g (insert c path) (g.supertypes c) texts path') :
      Climbs g path c (showAncestors (g.className c) texts) (path'.erase c)

/-- Climbs from several classes, one after another. -/
inductive ClimbsAll (g : Graph) :
    Finset ClassId → List ClassId → List String → Finset ClassId → Prop
  | nil {path : Finset ClassId} : ClimbsAll g path [] [] path
  | cons {path path' path'' : Finset ClassId} {c : ClassId} {cs : List ClassId} {text : String}
      {texts : List String} (hfirst : Climbs g path c text path')
      (hrest : ClimbsAll g path' cs texts path'') :
      ClimbsAll g path (c :: cs) (text :: texts) path''

end

/-- If every climb leaves the set that it was given, then all climbs in a row are given the same
set. -/
theorem climbsAll_iff {value : ClassId → String} {cs : List ClassId}
    (h : ∀ c ∈ cs, ∀ text path', g.Climbs path c text path' ↔ text = value c ∧ path' = path) :
    g.ClimbsAll path cs texts path' ↔ texts = cs.map value ∧ path' = path := by
  induction cs generalizing texts path' with
  | nil =>
    constructor
    · rintro ⟨⟩
      exact ⟨rfl, rfl⟩
    · rintro ⟨rfl, rfl⟩
      exact .nil
  | cons c cs ih =>
    obtain ⟨hc, hcs⟩ := List.forall_mem_cons.1 h
    constructor
    · rintro (_ | ⟨hfirst, hrest⟩)
      obtain ⟨rfl, rfl⟩ := (hc _ _).1 hfirst
      obtain ⟨rfl, rfl⟩ := (ih hcs).1 hrest
      exact ⟨rfl, rfl⟩
    · rintro ⟨rfl, rfl⟩
      exact .cons ((hc _ _).2 ⟨rfl, rfl⟩) ((ih hcs).2 ⟨rfl, rfl⟩)

/-- A climb has one outcome: the text of the unfolding, and the set that it was given. -/
theorem climbs_iff (hkin : g.kin = g.allKin.toArray) :
    g.Climbs path c text path' ↔ text = g.unfolding path c ∧ path' = path := by
  -- by induction on the unfolding: each class on the way leaves fewer that are not on it
  induction path, c using unfolding.induct g generalizing text path' with
  | case1 path c h =>
    rw [unfolding_of_mem h]
    constructor
    · rintro (_ | ⟨h', _⟩)
      · exact ⟨rfl, rfl⟩
      · exact absurd h h'
    · rintro ⟨rfl, rfl⟩
      exact .again h
  | case2 path c h ih =>
    rw [unfolding_of_not_mem h, ← supertypes_eq_above hkin]
    have hall : ∀ {texts path'}, g.ClimbsAll (insert c path) (g.supertypes c) texts path' ↔
        texts = (g.supertypes c).map (g.unfolding (insert c path)) ∧ path' = insert c path := by
      refine climbsAll_iff ?_
      intro a ha text path'
      rw [supertypes_eq_above hkin] at ha
      exact ih ⟨a, ha⟩
    constructor
    · rintro (h' | ⟨_, habove⟩)
      · exact absurd h' h
      · obtain ⟨rfl, rfl⟩ := hall.1 habove
        exact ⟨rfl, Finset.erase_insert h⟩
    · rintro ⟨rfl, rfl⟩
      have hup := Climbs.up h (hall.2 ⟨rfl, rfl⟩)
      rwa [Finset.erase_insert h] at hup

end StableNames.Graph
