-- Graphs whose names can be written into a snapshot and told apart there.
-- In such a graph the key of a method says its name and its descriptor, so
-- methods of one slot agree in both. Well-formed graphs are more than
-- readable: descriptors tell fields from methods, and names of packages
-- can stand before every new name.
import StableNames.Proofs.Graph.Signatures
import StableNames.Proofs.Session.Targets

namespace StableNames.Graph

/-- All names and descriptors can be written in a snapshot. -/
@[mk_iff]
structure CleanNames (g : Graph) : Prop where
  clean_class : ∀ c < g.classCount, CleanName (g.className c)
  clean_field : ∀ f < g.fields.size, CleanName (g.field f).name ∧ CleanName (g.field f).desc
  clean_method : ∀ m < g.methodCount, CleanName (g.method m).name ∧ CleanName (g.method m).desc

instance (g : Graph) : Decidable g.CleanNames := decidable_of_iff' _ (cleanNames_iff g)

/-- No class has two fields with the same name and descriptor. -/
def FieldsDistinct (g : Graph) : Prop :=
  ∀ f < g.fields.size, ∀ f' < g.fields.size, (g.field f).owner = (g.field f').owner →
    (g.field f).name = (g.field f').name → (g.field f).desc = (g.field f').desc → f = f'

instance (g : Graph) : Decidable g.FieldsDistinct := by
  unfold FieldsDistinct
  infer_instance

/-- The names are clean, no two members of a class have the same name and descriptor, and
the key of a method says which part of it is the name. -/
@[mk_iff]
structure Readable (g : Graph) : Prop extends g.CleanNames, g.SignaturesApart where
  fields_distinct : g.FieldsDistinct
  members_distinct : ∀ f < g.fields.size, ∀ m < g.methodCount,
    (g.field f).owner = (g.method m).owner → (g.field f).name = (g.method m).name →
      (g.field f).desc ≠ (g.method m).desc

instance (g : Graph) : Decidable g.Readable := decidable_of_iff' _ (readable_iff g)

/-- Names and descriptors are clean, the members of a class can be told apart, descriptors
tell methods from fields, and packages have no dollar signs. -/
@[mk_iff]
structure WellFormed (g : Graph) : Prop extends g.Readable where
  field_desc : ∀ f < g.fields.size, (g.field f).desc.toList.head? ≠ some '('
  package : ∀ c < g.classCount, '$' ∉ (Session.packageOf (g.className c)).toList

instance (g : Graph) : Decidable g.WellFormed := decidable_of_iff' _ (wellFormed_iff g)

/-- Related methods are scrambled alike. -/
def RelatedAlike (g : Graph) : Prop :=
  ∀ m < g.methodCount, ∀ n ∈ g.relatedTo m,
    isScrambledMethod (g.method n).name = isScrambledMethod (g.method m).name

instance (g : Graph) : Decidable g.RelatedAlike := by
  unfold RelatedAlike
  infer_instance

variable {g : Graph} {m n : MethodId}

/-! ## Members by all that they go by -/

/-- The field by its owner, name and descriptor. -/
def fieldMember (g : Graph) (f : FieldId) : Member :=
  ⟨g.className (g.field f).owner, (g.field f).name, (g.field f).desc⟩

/-- Classes with one name are one. -/
theorem Coherent.className_inj {c d : ClassId} (hg : g.Coherent) (hc : c < g.classCount)
    (hd : d < g.classCount) (h : g.className c = g.className d) : c = d := by
  have := hg.classOf_className c hc
  rw [h, hg.classOf_className d hd] at this
  exact (Option.some.inj this).symm

theorem FieldsDistinct.fieldMember_inj (h : g.FieldsDistinct) (hg : g.Coherent) {f f' : FieldId}
    (hf : f < g.fields.size) (hf' : f' < g.fields.size)
    (heq : g.fieldMember f = g.fieldMember f') : f = f' := by
  unfold fieldMember at heq
  rw [Member.mk.injEq] at heq
  obtain ⟨howner, hname, hdesc⟩ := heq
  have ho := hg.className_inj (hg.field_owner_lt f hf) (hg.field_owner_lt f' hf') howner
  exact h f hf f' hf' ho hname hdesc

namespace Readable

/-- All methods of a family are scrambled, or none is. -/
theorem scrambled_of_akin (h : g.Readable) (hg : g.Coherent) (hr : g.RelatedAlike)
    (hm : m < g.methodCount) (hmn : g.Akin m n) :
    isScrambledMethod (g.method n).name = isScrambledMethod (g.method m).name := by
  have hk := h.keysDistinct
  induction hmn with
  | refl => rfl
  | tail hmx hxn ih =>
    rw [← ih]
    have hx := Akin.lt hg hk hm hmx
    rcases hxn with hslot | hrel
    · obtain ⟨hlt, hkey, _⟩ := (mem_slotMethods hg hk).1 hslot
      rw [(h.eq_of_key_eq hlt hx hkey).1]
    · exact hr _ hx _ hrel

end Readable

namespace WellFormed

theorem methodMember_inj (h : g.WellFormed) (hg : g.Coherent) (hm : m < g.methodCount)
    (hn : n < g.methodCount) (heq : g.methodMember m = g.methodMember n) : m = n := by
  unfold methodMember at heq
  rw [Member.mk.injEq] at heq
  obtain ⟨howner, hname, hdesc⟩ := heq
  have ho := hg.className_inj (hg.owner_lt m hm) (hg.owner_lt n hn) howner
  exact h.distinct m hm n hn ho hname hdesc

end WellFormed

end StableNames.Graph
