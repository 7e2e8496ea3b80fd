-- A graph inside a larger one. The numbers of the part stand behind an
-- offset there, and no link leads into it or out of it. So what a search
-- finds from one of its symbols is what it finds in the part alone, with
-- the offset.
import StableNames.Proofs.Graph.Families

namespace StableNames

open Relation Reach

/-- How many classes, fields and methods stand before those of a part. -/
structure Offset where
  classes : Nat
  fields : Nat
  methods : Nat

/-- The class without the list of the classes inside it. -/
def ClassInfo.bare (c : ClassInfo) : ClassInfo := { c with inner := [] }

/-- The class with the numbers that it has behind the offset, without the classes inside it. -/
def ClassInfo.moved (o : Offset) (c : ClassInfo) : ClassInfo :=
  { c with
    outer? := c.outer?.map (o.classes + ·)
    inner := []
    fields := c.fields.map (o.fields + ·)
    methods := c.methods.map (o.methods + ·) }

def FieldInfo.moved (o : Offset) (f : FieldInfo) : FieldInfo :=
  { f with owner := o.classes + f.owner }

def MethodInfo.moved (o : Offset) (m : MethodInfo) : MethodInfo :=
  { m with owner := o.classes + m.owner }

/-! ## Relations that stay in a part -/

/-- From a number behind the offset the larger relation leads where the smaller one does. -/
structure Carried (offset count : Nat) (R R' : Nat → Nat → Prop) : Prop where
  lt : ∀ x < count, ∀ y, R x y → y < count
  iff : ∀ x < count, ∀ y, R' (offset + x) y ↔ ∃ z, R x z ∧ y = offset + z

namespace Carried

variable {offset count x y : Nat} {R R' : Nat → Nat → Prop}

theorem shifted (h : Carried offset count R R') (hx : x < count) :
    R' (offset + x) (offset + y) ↔ R x y := by
  rw [h.iff x hx]
  constructor
  · rintro ⟨z, hz, heq⟩
    rwa [Nat.add_left_cancel heq]
  · intro hy
    exact ⟨y, hy, rfl⟩

theorem reflTransGen (h : Carried offset count R R') :
    Carried offset count (ReflTransGen R) (ReflTransGen R') := by
  have hlt : ∀ x < count, ∀ y, ReflTransGen R x y → y < count := by
    intro x hx y hxy
    induction hxy with
    | refl => exact hx
    | tail _ hyz ih => exact h.lt _ ih _ hyz
  refine ⟨hlt, ?_⟩
  intro x hx y
  constructor
  · intro hxy
    induction hxy with
    | refl => exact ⟨x, .refl, rfl⟩
    | tail _ hyz ih =>
      obtain ⟨z, hxz, rfl⟩ := ih
      obtain ⟨w, hzw, rfl⟩ := (h.iff z (hlt x hx z hxz) _).1 hyz
      exact ⟨w, .tail hxz hzw, rfl⟩
  · rintro ⟨z, hxz, rfl⟩
    induction hxz with
    | refl => exact .refl
    | tail hxy hyz ih => exact .tail ih ((h.shifted (hlt x hx _ hxy)).2 hyz)

end Carried

/-! ## Parts of a graph -/

namespace Graph

variable {o : Offset} {g g' : Graph} {c d : ClassId} {f : FieldId} {m n k : MethodId}
  {key : String}

/-- The classes, fields and methods of `g` stand in `g'` behind an offset. -/
structure Placed (o : Offset) (g g' : Graph) : Prop where
  class_lt : ∀ c < g.classCount, o.classes + c < g'.classCount
  method_lt : ∀ m < g.methodCount, o.methods + m < g'.methodCount
  classInfo : ∀ c < g.classCount, (g'.classInfo (o.classes + c)).bare = (g.classInfo c).moved o
  field : ∀ f < g.fields.size, g'.field (o.fields + f) = (g.field f).moved o
  method : ∀ m < g.methodCount, g'.method (o.methods + m) = (g.method m).moved o

/-- No link of `g'` leads into `g` or out of it. -/
structure Part (o : Offset) (g g' : Graph) : Prop extends Placed o g g' where
  supertypes : Carried o.classes g.classCount (Next g.supertypes) (Next g'.supertypes)
  subtypes : Carried o.classes g.classCount (Next g.subtypes) (Next g'.subtypes)
  related : Carried o.methods g.methodCount (fun m n => n ∈ g.relatedTo m)
    fun m n => n ∈ g'.relatedTo m

namespace Placed

theorem className_eq (h : Placed o g g') (hc : c < g.classCount) :
    g'.className (o.classes + c) = g.className c :=
  (congrArg ClassInfo.name (h.classInfo c hc) :)

theorem outer_eq (h : Placed o g g') (hc : c < g.classCount) :
    (g'.classInfo (o.classes + c)).outer? = (g.classInfo c).outer?.map (o.classes + ·) :=
  congrArg ClassInfo.outer? (h.classInfo c hc)

theorem fields_eq (h : Placed o g g') (hc : c < g.classCount) :
    (g'.classInfo (o.classes + c)).fields = (g.classInfo c).fields.map (o.fields + ·) :=
  congrArg ClassInfo.fields (h.classInfo c hc)

theorem methods_eq (h : Placed o g g') (hc : c < g.classCount) :
    (g'.classInfo (o.classes + c)).methods = (g.classInfo c).methods.map (o.methods + ·) :=
  congrArg ClassInfo.methods (h.classInfo c hc)

theorem supers_eq (h : Placed o g g') (hc : c < g.classCount) :
    (g'.classInfo (o.classes + c)).superName?.toList ++
        (g'.classInfo (o.classes + c)).interfaceNames =
      (g.classInfo c).superName?.toList ++ (g.classInfo c).interfaceNames :=
  (congrArg (fun i => i.superName?.toList ++ i.interfaceNames) (h.classInfo c hc) :)

theorem isAnonymous_eq (h : Placed o g g') (hc : c < g.classCount) :
    (g'.classInfo (o.classes + c)).isAnonymous = (g.classInfo c).isAnonymous :=
  (congrArg ClassInfo.isAnonymous (h.classInfo c hc) :)

theorem owner_eq (h : Placed o g g') (hm : m < g.methodCount) :
    (g'.method (o.methods + m)).owner = o.classes + (g.method m).owner := by
  rw [h.method m hm]
  rfl

theorem key_eq (h : Placed o g g') (hm : m < g.methodCount) :
    (g'.method (o.methods + m)).key = (g.method m).key := by
  rw [h.method m hm]
  rfl

theorem isFixed_eq (h : Placed o g g') (hm : m < g.methodCount) :
    (g'.method (o.methods + m)).isFixed = (g.method m).isFixed := by
  rw [h.method m hm]
  rfl

/-- Methods of a class of the part are methods of the part. -/
theorem exists_method (h : Placed o g g') (hg : g.Coherent) (hg' : g'.Coherent)
    (hc : c < g.classCount) (hk : k < g'.methodCount)
    (howner : (g'.method k).owner = o.classes + c) :
    ∃ m < g.methodCount, (g.method m).owner = c ∧ k = o.methods + m := by
  have hmem := (hg'.mem_methods _ _).2 ⟨hk, howner⟩
  rw [h.methods_eq hc] at hmem
  obtain ⟨m, hm, rfl⟩ := List.mem_map.1 hmem
  obtain ⟨hlt, ho⟩ := (hg.mem_methods _ _).1 hm
  exact ⟨m, hlt, ho, rfl⟩

end Placed

/-! ## Above and below -/

namespace Part

theorem below (h : Part o g g') : Carried o.classes g.classCount g.Below g'.Below :=
  h.supertypes.reflTransGen

variable (hg : g.Coherent) (hg' : g'.Coherent)

include hg hg'

theorem above (h : Part o g g') :
    Carried o.classes g.classCount (fun a x => g.Below x a) (fun a x => g'.Below x a) := by
  simp only [below_iff hg, below_iff hg']
  exact h.subtypes.reflTransGen

variable (hkeys : g.KeysDistinct) (hkeys' : g'.KeysDistinct)

include hkeys hkeys'

theorem declaresVirtual (h : Part o g g') (hc : c < g.classCount) (key : String) :
    g'.declaresVirtual key (o.classes + c) = g.declaresVirtual key c := by
  rw [Bool.eq_iff_iff, declaresVirtual_iff hg' hkeys', declaresVirtual_iff hg hkeys]
  constructor
  · rintro ⟨k, hk, howner, rfl, hf⟩
    obtain ⟨m, hm, ho, rfl⟩ := h.exists_method hg hg' hc hk howner
    exact ⟨m, hm, ho, (h.key_eq hm).symm, (h.isFixed_eq hm).symm.trans hf⟩
  · rintro ⟨m, hm, rfl, rfl, hf⟩
    exact ⟨o.methods + m, h.method_lt m hm, h.owner_eq hm, h.key_eq hm, (h.isFixed_eq hm).trans hf⟩

/-- A method is declared first in the part if and only if it is in the whole graph. -/
theorem isSource (h : Part o g g') (hc : c < g.classCount) (hm : m < g.methodCount) :
    g'.isSource (o.classes + c) (o.methods + m) = g.isSource c m := by
  unfold Graph.isSource
  rw [h.isFixed_eq hm, h.key_eq hm]
  congr 1
  rw [Bool.eq_iff_iff, List.isEmpty_iff, List.isEmpty_iff, List.eq_nil_iff_forall_not_mem,
    List.eq_nil_iff_forall_not_mem]
  simp only [mem_declaringAncestors hg, mem_declaringAncestors hg']
  constructor
  · rintro hnone a ⟨hne, hbelow, hdecl⟩
    have ha := h.below.lt c hc a hbelow
    rw [← h.declaresVirtual hg hg' hkeys hkeys' ha] at hdecl
    exact hnone (o.classes + a)
      ⟨fun heq => hne (Nat.add_left_cancel heq), (h.below.shifted hc).2 hbelow, hdecl⟩
  · rintro hnone a' ⟨hne, hbelow', hdecl⟩
    obtain ⟨a, hbelow, rfl⟩ := (h.below.iff c hc _).1 hbelow'
    rw [h.declaresVirtual hg hg' hkeys hkeys' (h.below.lt c hc a hbelow)] at hdecl
    exact hnone a ⟨fun heq => hne (heq ▸ rfl), hbelow, hdecl⟩

/-! ## Slots and families -/

theorem meet (h : Part o g g') (key : String) :
    Carried o.classes g.classCount (g.Meet key) (g'.Meet key) := by
  have hbelow := h.below
  have habove := h.above hg hg'
  refine ⟨?_, ?_⟩
  · rintro a ha b ⟨_, _, x, hxa, hxb⟩
    exact hbelow.lt x (habove.lt a ha x hxa) b hxb
  · intro a ha y
    constructor
    · rintro ⟨hda, hdy, x', hx'a, hx'y⟩
      obtain ⟨x, hxa, rfl⟩ := (habove.iff a ha _).1 hx'a
      have hx := habove.lt a ha x hxa
      obtain ⟨b, hxb, rfl⟩ := (hbelow.iff x hx _).1 hx'y
      rw [h.declaresVirtual hg hg' hkeys hkeys' ha] at hda
      rw [h.declaresVirtual hg hg' hkeys hkeys' (hbelow.lt x hx b hxb)] at hdy
      exact ⟨b, ⟨hda, hdy, x, hxa, hxb⟩, rfl⟩
    · rintro ⟨b, ⟨hda, hdb, x, hxa, hxb⟩, rfl⟩
      have hx := habove.lt a ha x hxa
      rw [← h.declaresVirtual hg hg' hkeys hkeys' ha] at hda
      rw [← h.declaresVirtual hg hg' hkeys hkeys' (hbelow.lt x hx b hxb)] at hdb
      exact ⟨hda, hdb, o.classes + x, (habove.shifted ha).2 hxa, (hbelow.shifted hx).2 hxb⟩

theorem mem_slot (h : Part o g g') (hm : m < g.methodCount) {d' : ClassId} :
    d' ∈ g'.slot (o.classes + (g.method m).owner) (o.methods + m) ↔
      ∃ d < g.classCount, d ∈ g.slot (g.method m).owner m ∧ d' = o.classes + d := by
  have hc := hg.owner_lt m hm
  rcases hf : (g.method m).isFixed with _ | _
  · have hdecl : g.declaresVirtual (g.method m).key (g.method m).owner = true :=
      (declaresVirtual_iff hg hkeys).2 ⟨m, hm, rfl, rfl, hf⟩
    have hdecl' := (h.declaresVirtual hg hg' hkeys hkeys' hc (g.method m).key).trans hdecl
    have hsame := (h.meet hg hg' hkeys hkeys' (g.method m).key).reflTransGen
    rw [← h.key_eq hm] at hdecl'
    rw [mem_slot_of_virtual hg' ((h.isFixed_eq hm).trans hf) hdecl', h.key_eq hm]
    simp only [mem_slot_of_virtual hg hf hdecl]
    refine (hsame.iff _ hc d').trans ⟨?_, ?_⟩
    · rintro ⟨d, hd, rfl⟩
      exact ⟨d, hsame.lt _ hc d hd, hd, rfl⟩
    · rintro ⟨d, _, hd, rfl⟩
      exact ⟨d, hd, rfl⟩
  · rw [slot_of_fixed ((h.isFixed_eq hm).trans hf), slot_of_fixed hf]
    simp only [List.mem_singleton]
    constructor
    · rintro rfl
      exact ⟨_, hc, rfl, rfl⟩
    · rintro ⟨d, _, rfl, rfl⟩
      rfl

theorem mem_slotMethods (h : Part o g g') (hm : m < g.methodCount) :
    k ∈ g'.slotMethods (o.classes + (g.method m).owner) (o.methods + m) ↔
      ∃ n ∈ g.slotMethods (g.method m).owner m, k = o.methods + n := by
  simp only [Graph.mem_slotMethods hg hkeys, Graph.mem_slotMethods hg' hkeys',
    h.mem_slot hg hg' hkeys hkeys' hm, h.key_eq hm]
  constructor
  · rintro ⟨hk, hkey, d, hd, hslot, howner⟩
    obtain ⟨n, hn, rfl, rfl⟩ := h.exists_method hg hg' hd hk howner
    exact ⟨n, ⟨hn, (h.key_eq hn).symm.trans hkey, hslot⟩, rfl⟩
  · rintro ⟨n, ⟨hn, hkey, hslot⟩, rfl⟩
    exact ⟨h.method_lt n hn, (h.key_eq hn).trans hkey, _, hg.owner_lt n hn, hslot, h.owner_eq hn⟩

theorem kindred (h : Part o g g') :
    Carried o.methods g.methodCount g.Kindred g'.Kindred := by
  refine ⟨fun m _ n hmn => hmn.lt hg hkeys, ?_⟩
  intro m hm k
  unfold Kindred
  rw [h.owner_eq hm, h.mem_slotMethods hg hg' hkeys hkeys' hm, h.related.iff m hm]
  constructor
  · rintro (⟨n, hn, rfl⟩ | ⟨n, hn, rfl⟩)
    · exact ⟨n, .inl hn, rfl⟩
    · exact ⟨n, .inr hn, rfl⟩
  · rintro ⟨n, hn | hn, rfl⟩
    · exact .inl ⟨n, hn, rfl⟩
    · exact .inr ⟨n, hn, rfl⟩

/-- The family of a method of the part is its family in the part. -/
theorem mem_family (h : Part o g g') (hm : m < g.methodCount) :
    k ∈ g'.family (g'.method (o.methods + m)).owner (o.methods + m) ↔
      ∃ n ∈ g.family (g.method m).owner m, k = o.methods + n := by
  simp only [Graph.mem_family hg' hkeys' (h.method_lt m hm), Graph.mem_family hg hkeys hm]
  exact (h.kindred hg hg' hkeys hkeys').reflTransGen.iff m hm k

end Part

end Graph

end StableNames
