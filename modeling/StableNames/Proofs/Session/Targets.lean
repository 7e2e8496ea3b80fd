-- The new name of a class, read again. A target that a run has put
-- together is a place and a part with the marker and without a dollar
-- sign. If it is looked up as the earlier name of its class, then the part
-- is adopted and the place found again, so the same target comes out.
import Mathlib.Tactic.MkIffOfInductiveProp
import StableNames.Proofs.Snapshot.RoundTrip
import StableNames.Proofs.Text.Places
import StableNames.Session.Classes

namespace StableNames

/-- The namespace is without dollar signs, tabs and line feeds, and a slash closes it, as it
does in every namespace that was set. -/
@[mk_iff]
structure Settings.PlainNamespace (s : Settings) : Prop where
  unbroken : Unbroken s.targetNamespace
  no_dollar : '$' ∉ s.targetNamespace.toList
  closed : s.targetNamespace.toList.getLast? = some '/'

instance (s : Settings) : Decidable s.PlainNamespace :=
  decidable_of_iff' _ (Settings.plainNamespace_iff s)

namespace Session

variable {settings : Settings} {name around place own : String}

/-- The part of an earlier class name that may stay. -/
def ownPart (earlier : String) : String := String.ofList (Text.afterLast '$' earlier.toList)

/-- What a class is put behind if it adopts its own part of an earlier name. -/
def placeLike (earlier around : String) : String :=
  if earlier.toList.contains '$' then around else ""

/-- The class with this name keeps the target `full` if that is its earlier name. -/
structure Rereads (settings : Settings) (name around full : String) : Prop where
  owns : Category.ofClass.owns (ownPart full) = true
  full_eq : placeOf settings name (placeLike full around) ++ ownPart full = full

theorem placeOf_cases (settings : Settings) (name place : String) :
    placeOf settings name place = packageOf name ∨ placeOf settings name place = place := by
  unfold placeOf
  split
  · exact .inl rfl
  · exact .inr rfl

/-- Without packages to keep, a class stands in the place that it is given. -/
theorem placeOf_eq (h : settings.keepPackage = false) (name place : String) :
    placeOf settings name place = place := by
  unfold placeOf
  simp [h]

/-- No namespace is a prefix of nothing. -/
theorem placeOf_empty (h : settings.PlainNamespace) (name : String) :
    placeOf settings name "" = "" := by
  have hclosed := h.closed
  unfold placeOf
  rw [if_neg]
  rcases hns : settings.targetNamespace.toList with _ | ⟨c, rest⟩
  · rw [hns] at hclosed
    cases hclosed
  · simp

theorem ownPart_of_plain {full : String} (h : '$' ∉ full.toList) : ownPart full = full := by
  unfold ownPart
  rw [Text.afterLast_eq_self h, String.ofList_toList]

theorem placeLike_of_plain {full : String} (h : '$' ∉ full.toList) (around : String) :
    placeLike full around = "" := by
  unfold placeLike
  rw [if_neg (by simpa using h)]

theorem toList_nested (outer own : String) :
    (outer ++ "$" ++ own).toList = outer.toList ++ '$' :: own.toList := by
  simp

theorem ownPart_nested (outer : String) (h : '$' ∉ own.toList) :
    ownPart (outer ++ "$" ++ own) = own := by
  unfold ownPart
  rw [toList_nested, Text.afterLast_append_mark h, String.ofList_toList]

theorem placeLike_nested (outer own around : String) :
    placeLike (outer ++ "$" ++ own) around = around := by
  unfold placeLike
  rw [toList_nested, if_pos (by simp)]

/-- Without a dollar sign the whole target is adopted as it is. -/
theorem rereads_of_plain (h : settings.PlainNamespace) (hd : '$' ∉ place.toList)
    (hown : '$' ∉ own.toList) (howns : Category.ofClass.owns own = true) :
    Rereads settings name around (place ++ own) := by
  have hfull : '$' ∉ (place ++ own).toList := by
    rw [String.toList_append, List.mem_append, not_or]
    exact ⟨hd, hown⟩
  constructor
  · rw [ownPart_of_plain hfull]
    exact Category.owns_append place howns
  · rw [ownPart_of_plain hfull, placeLike_of_plain hfull, placeOf_empty h, String.empty_append]

/-- Behind the class around it, the own part ends at the last dollar sign. -/
theorem rereads_of_nested {outer : String} (hplace : placeOf settings name (outer ++ "$") =
    outer ++ "$") (hown : '$' ∉ own.toList) (howns : Category.ofClass.owns own = true) :
    Rereads settings name (outer ++ "$") (outer ++ "$" ++ own) := by
  constructor
  · rw [ownPart_nested outer hown, howns]
  · rw [ownPart_nested outer hown, placeLike_nested, hplace]

/-- Whatever a class with a marked part is put behind, its target is read again, also by a
class that goes by another name now. -/
theorem rereads_of_marked (h : settings.PlainNamespace)
    (hname : settings.keepPackage = true → '$' ∉ (packageOf name).toList)
    (haround : around = settings.targetNamespace ∨ ∃ outer, around = outer ++ "$")
    (hplace : place = around ∨ place = "") (hown : '$' ∉ own.toList)
    (howns : Category.ofClass.owns own = true) (name' : String) :
    Rereads settings name' around (placeOf settings name place ++ own) := by
  rcases hkeep : settings.keepPackage && settings.targetNamespace.toList.isPrefixOf place.toList
    with _ | _
  · have hstays : ∀ name, placeOf settings name place = place := by
      intro name
      unfold placeOf
      rw [hkeep]
      rfl
    rw [hstays]
    rcases hplace with rfl | rfl
    · rcases haround with rfl | ⟨outer, rfl⟩
      · exact rereads_of_plain h h.no_dollar hown howns
      · exact rereads_of_nested (hstays name') hown howns
    · exact rereads_of_plain h (by simp) hown howns
  · have hpackage : placeOf settings name place = packageOf name := by
      unfold placeOf
      rw [hkeep]
      rfl
    rw [hpackage]
    exact rereads_of_plain h (hname (Bool.and_eq_true_iff.1 hkeep).1) hown howns

theorem unbroken_packageOf (h : Unbroken name) : Unbroken (packageOf name) := by
  intro c hc
  apply h c
  unfold packageOf at hc
  rw [String.toList_ofList] at hc
  exact Text.mem_of_mem_uptoLast hc

theorem unbroken_placeOf (hname : Unbroken name) (hplace : Unbroken place) :
    Unbroken (placeOf settings name place) := by
  rcases placeOf_cases settings name place with h | h
  · rw [h]
    exact unbroken_packageOf hname
  · rw [h]
    exact hplace

theorem clean_ownPart {earlier : String} (h : CleanName earlier) (hne : ownPart earlier ≠ "") :
    CleanName (ownPart earlier) := by
  have hpart : (ownPart earlier).toList = Text.afterLast '$' earlier.toList := by
    unfold ownPart
    rw [String.toList_ofList]
  refine ⟨hne, ?_, ?_⟩
  · intro c hc
    rw [hpart] at hc
    exact h.unbroken c (Text.mem_of_mem_afterLast hc)
  · have hlist : Text.afterLast '$' earlier.toList ≠ [] := by
      rw [← hpart]
      simpa using hne
    -- the part is the end of the name, so both end in the same character
    have hend := h.no_return
    rw [← Text.uptoLast_append_afterLast '$' earlier.toList,
      List.getLast?_append_of_ne_nil _ hlist] at hend
    rw [hpart]
    exact hend

/-- An earlier name ends in its own part. -/
theorem exists_append_ownPart (earlier : String) :
    ∃ before, earlier = before ++ ownPart earlier := by
  refine ⟨String.ofList (Text.uptoLast '$' earlier.toList), ?_⟩
  unfold ownPart
  rw [← String.ofList_append, Text.uptoLast_append_afterLast, String.ofList_toList]

/-- The own part of a name ends in what the name ends in. -/
theorem exists_ownPart_append (place : String) (h : '$' ∉ own.toList) :
    ∃ place', ownPart (place ++ own) = place' ++ own := by
  refine ⟨ownPart place, ?_⟩
  unfold ownPart
  rw [String.toList_append, Text.afterLast_append h, String.ofList_append, String.ofList_toList]

theorem not_mem_ownPart (earlier : String) : '$' ∉ (ownPart earlier).toList := by
  unfold ownPart
  rw [String.toList_ofList]
  exact Text.mark_not_mem_afterLast '$' _

end Session

end StableNames
