-- Where the names of classes and fields come from. A name is the one that
-- was known before, if that may stay, or else it has the number that its
-- symbol is given. So the last state of a run says what all names are.
import StableNames.Proofs.Session.Runs
import StableNames.Proofs.Session.Targets

namespace StableNames

/-! ## Names and their sources -/

namespace Naming

variable {n : Naming} {s : Symbol} {category : Category} {known? : Option String} {name : String}

/-- The name is known from before and may stay, or nothing that is known may stay and it has
the number of the symbol. -/
inductive Sourced (n : Naming) (s : Symbol) (category : Category) (known? : Option String) :
    String → Prop
  | adopted {name : String} (hk : known? = some name) (ho : category.owns name = true) :
      Sourced n s category known? name
  | numbered {k : Nat} (hk : ∀ name ∈ known?, category.owns name = false)
      (hs : n.allocator.numbers.get? s = some (category, k)) :
      Sourced n s category known? (category.name k)

/-- The name of a symbol, given the numbers at the end. -/
def nameIn (n : Naming) (s : Symbol) (category : Category) (known? : Option String) : String :=
  (known?.filter (category.owns ·)).getD (n.issued s)

namespace Sourced

theorem eq_nameIn (h : n.Sourced s category known? name) :
    name = n.nameIn s category known? := by
  unfold nameIn
  cases h with
  | adopted hk ho =>
    subst hk
    simp [Option.filter, ho]
  | numbered hk hs =>
    rw [issued_eq hs]
    rcases known? with _ | name
    · rfl
    · simp [Option.filter, hk name rfl]

theorem owns (h : n.Sourced s category known? name) : category.owns name = true := by
  cases h with
  | adopted _ ho => exact ho
  | numbered => exact Category.owns_name _ _

/-- The names are clean if what is known from before is, as far as it may stay. -/
theorem clean (h : n.Sourced s category known? name)
    (hknown : ∀ name ∈ known?, category.owns name = true → CleanName name) : CleanName name := by
  cases h with
  | adopted hk ho => exact hknown _ hk ho
  | numbered => exact Category.clean_name _ _

end Sourced

end Naming

namespace Lineage

/-- The part of the earlier name of a class that is its own. -/
def knownPart? (l : Lineage) (c : ClassId) : Option String :=
  (l.chain.lookupClass (l.graph.className c)).map Session.ownPart

/-- The earlier name of a field. -/
def knownField? (l : Lineage) (f : FieldId) : Option String :=
  (l.chain.lookupMember ⟨l.graph.className (l.graph.field f).owner, (l.graph.field f).name,
    (l.graph.field f).desc⟩).map (·.name)

/-- What a renamed class is put behind: a class that keeps its own part stands where its
earlier name stood. -/
def placeFor (l : Lineage) (c : ClassId) (around : String) : String :=
  match l.chain.lookupClass (l.graph.className c) with
  | some earlier =>
    if Category.ofClass.owns (Session.ownPart earlier) then Session.placeLike earlier around
    else around
  | none => around

theorem placeFor_cases (l : Lineage) (c : ClassId) (around : String) :
    l.placeFor c around = around ∨ l.placeFor c around = "" := by
  unfold placeFor Session.placeLike
  rcases l.chain.lookupClass (l.graph.className c) with _ | earlier
  · exact .inl rfl
  · simp only
    repeat' split
    · exact .inl rfl
    · exact .inr rfl
    · exact .inl rfl

variable {l : Lineage} {c : ClassId} {f : FieldId}

theorem clean_knownPart? (hl : l.chain.Clean) (hc : CleanName (l.graph.className c)) :
    ∀ part ∈ l.knownPart? c, Category.ofClass.owns part = true → CleanName part := by
  intro part hpart ho
  obtain ⟨earlier, hearlier, rfl⟩ := Option.map_eq_some_iff.1 hpart
  exact Session.clean_ownPart (hl.lookupClass hc hearlier) (Category.ne_empty_of_owns ho)

theorem dollar_not_mem_knownPart? : ∀ part ∈ l.knownPart? c, '$' ∉ part.toList := by
  intro part hpart
  obtain ⟨earlier, _, rfl⟩ := Option.map_eq_some_iff.1 hpart
  exact Session.not_mem_ownPart earlier

theorem clean_knownField? (hl : l.chain.Clean) (hf : CleanName (l.graph.field f).name) :
    ∀ name ∈ l.knownField? f, CleanName name := by
  intro name hname
  obtain ⟨earlier, hearlier, rfl⟩ := Option.map_eq_some_iff.1 hname
  refine hl.lookupMember ?_ hearlier
  exact hf

/-- The class has the new name `full` behind `around`: its own name if it keeps that, or
else a sourced part in its place. -/
structure Targeted (l : Lineage) (settings : Settings) (n : Naming) (c : ClassId)
    (around full : String) : Prop where
  kept : Session.keepsName settings (l.graph.classInfo c) = true → full = l.graph.className c
  renamed : Session.keepsName settings (l.graph.classInfo c) = false → ∃ own,
    n.Sourced (.ofClass c) .ofClass (l.knownPart? c) own ∧
      full = Session.placeOf settings (l.graph.className c) (l.placeFor c around) ++ own

namespace Targeted

variable {settings : Settings} {n : Naming} {around full earlier : String}

/-- A renamed class without an earlier name has a number behind its surroundings. -/
theorem fresh (h : l.Targeted settings n c around full)
    (hkeep : Session.keepsName settings (l.graph.classInfo c) = false)
    (hl : l.chain.lookupClass (l.graph.className c) = none) :
    ∃ k, n.allocator.numbers.get? (.ofClass c) = some (.ofClass, k) ∧
      full = Session.placeOf settings (l.graph.className c) around ++ Category.ofClass.name k := by
  obtain ⟨own, hown, hfull⟩ := h.renamed hkeep
  unfold placeFor at hfull
  rw [hl] at hfull
  cases hown with
  | adopted hk _ =>
    unfold knownPart? at hk
    rw [hl] at hk
    cases hk
  | numbered _ hs => exact ⟨_, hs, hfull⟩

/-- A renamed class whose earlier own part may stay keeps that. -/
theorem adopted (h : l.Targeted settings n c around full)
    (hkeep : Session.keepsName settings (l.graph.classInfo c) = false)
    (hl : l.chain.lookupClass (l.graph.className c) = some earlier)
    (ho : Category.ofClass.owns (Session.ownPart earlier) = true) :
    full = Session.placeOf settings (l.graph.className c) (Session.placeLike earlier around) ++
      Session.ownPart earlier := by
  have hknown : l.knownPart? c = some (Session.ownPart earlier) := by
    unfold knownPart?
    rw [hl]
    rfl
  obtain ⟨own, hown, hfull⟩ := h.renamed hkeep
  unfold placeFor at hfull
  simp only [hl, ho, if_true] at hfull
  cases hown with
  | adopted hk _ =>
    rw [hknown] at hk
    cases hk
    exact hfull
  | numbered hk _ =>
    have hno := hk _ hknown
    rw [ho] at hno
    cases hno

end Targeted

end Lineage

/-! ## Steps -/

namespace Session

open Naming

variable {settings : Settings} {l : Lineage} {c : ClassId}

theorem quiet_classTarget (around : String) :
    Quiet (classTarget settings l c around) fun N t =>
      l.Targeted settings N c around t.full := by
  unfold classTarget
  rcases hkeep : keepsName settings (l.graph.classInfo c) with _ | _
  · simp only [hkeep, Bool.false_eq_true, if_false]
    have hrenamed : ∀ {N : Naming} {full own : String},
        N.Sourced (.ofClass c) .ofClass (l.knownPart? c) own →
        full = placeOf settings (l.graph.className c) (l.placeFor c around) ++ own →
        l.Targeted settings N c around full := by
      intro N full own hown hfull
      exact ⟨by simp [hkeep], fun _ => ⟨own, hown, hfull⟩⟩
    rcases hearlier : l.chain.lookupClass (l.graph.className c) with _ | earlier
    · have hknown : l.knownPart? c = none := by
        unfold Lineage.knownPart?
        rw [hearlier]
        rfl
      have hplace : l.placeFor c around = around := by
        unfold Lineage.placeFor
        rw [hearlier]
      rw [show l.chain.lookupClass (l.graph.classInfo c).name = none from hearlier]
      apply (quiet_allocate _ _).bind
      intro name
      apply Quiet.pure
      rintro N ⟨k, hk, rfl⟩
      refine hrenamed (.numbered (by simp [hknown]) hk) ?_
      rw [hplace]
      rfl
    · have hknown : l.knownPart? c = some (ownPart earlier) := by
        unfold Lineage.knownPart?
        rw [hearlier]
        rfl
      rw [show l.chain.lookupClass (l.graph.classInfo c).name = some earlier from hearlier]
      simp only
      rw [show String.ofList (Text.afterLast '$' earlier.toList) = ownPart earlier from rfl]
      by_cases howns : Category.ofClass.owns (ownPart earlier) = true
      · have hplace : l.placeFor c around = placeLike earlier around := by
          unfold Lineage.placeFor
          simp only [hearlier, howns, if_true]
        rw [if_pos howns]
        apply Quiet.pure
        intro N
        refine hrenamed (.adopted hknown howns) ?_
        rw [hplace]
        rfl
      · have hplace : l.placeFor c around = around := by
          unfold Lineage.placeFor
          simp only [hearlier, howns, Bool.false_eq_true, if_false]
        rw [if_neg howns]
        apply (quiet_replace _ _ _).bind
        intro name
        refine Quiet.bind (.modify (fun _ => rfl) (fun _ => rfl)) ?_
        intro _
        apply Quiet.pure
        rintro N _ ⟨k, hk, rfl⟩
        refine hrenamed (.numbered ?_ hk) ?_
        · simpa [hknown] using howns
        · rw [hplace]
          rfl
  · simp only [hkeep, if_true]
    apply Quiet.pure
    intro _
    refine ⟨?_, by simp [hkeep]⟩
    intro _
    rw [Target.full, String.append_empty]
    rfl

theorem quiet_fieldName (f : FieldId) :
    Quiet (fieldName l f) fun N name =>
      N.Sourced (.ofField f) .ofField (l.knownField? f) name := by
  unfold fieldName Lineage.knownField?
  simp only
  rcases l.chain.lookupMember ⟨l.graph.className (l.graph.field f).owner,
    (l.graph.field f).name, (l.graph.field f).desc⟩ with _ | earlier
  · apply (quiet_allocate _ _).mono
    rintro N _ ⟨k, hk, rfl⟩
    exact .numbered (by simp) hk
  · simp only [Option.map_some]
    by_cases howns : Category.ofField.owns earlier.name = true
    · rw [if_pos howns]
      exact .pure fun _ => .adopted rfl howns
    · rw [if_neg howns]
      apply (quiet_replace _ _ _).bind
      intro name
      refine Quiet.bind (.modify (fun _ => rfl) (fun _ => rfl)) ?_
      intro _
      apply Quiet.pure
      rintro N _ ⟨k, hk, rfl⟩
      refine .numbered ?_ hk
      simpa using howns

end Session

end StableNames
