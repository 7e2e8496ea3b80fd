-- First declarations. A method that is not declared first overrides one
-- that is: whoever goes up from declaration to declaration comes to one
-- that has none above it, unless the hierarchy goes in circles. What a
-- method overrides is in its family, however far above it stands.
import StableNames.Proofs.Graph.Signatures

namespace StableNames.Graph

open Relation Reach

variable {g : Graph} {key : String} {a b c : ClassId} {m n : MethodId}

/-- No class stands above itself. -/
def Acyclic (g : Graph) : Prop := ∀ c, ¬ TransGen (Next g.supertypes) c c

/-- Hierarchies in which every class comes after those above it have no cycles. -/
theorem acyclic_of_lt (hg : g.Coherent) (h : ∀ c < g.classCount, ∀ a ∈ g.supertypes c, a < c) :
    g.Acyclic := by
  have hstep : ∀ c, ∀ a ∈ g.supertypes c, a < c := by
    intro c a ha
    by_cases hc : c < g.classCount
    · exact h c hc a ha
    · exact Nat.lt_of_lt_of_le (hg.supertypes_lt c a ha) (Nat.not_lt.1 hc)
  have hlt : ∀ {c a}, TransGen (Next g.supertypes) c a → a < c := by
    intro c a hca
    induction hca with
    | single ha => exact hstep _ _ ha
    | tail _ ha ih => exact Nat.lt_trans (hstep _ _ ha) ih
  intro c hc
  exact Nat.lt_irrefl c (hlt hc)

/-- The method overrides the virtual method `n` of a class above its own. -/
structure Overrides (g : Graph) (m n : MethodId) : Prop where
  lt : n < g.methodCount
  above : TransGen (Next g.supertypes) (g.method m).owner (g.method n).owner
  name_eq : (g.method n).name = (g.method m).name
  desc_eq : (g.method n).desc = (g.method m).desc
  not_fixed : (g.method n).isFixed = false

theorem Overrides.key_eq (h : g.Overrides m n) : (g.method n).key = (g.method m).key := by
  unfold MethodInfo.key
  rw [h.name_eq, h.desc_eq]

section

variable (hg : g.Coherent)

include hg

theorem transGen_of_mem_declaringAncestors (ha : a ∈ g.declaringAncestors key c) :
    TransGen (Next g.supertypes) c a := by
  obtain ⟨hne, hbelow, _⟩ := (mem_declaringAncestors hg).1 ha
  exact (reflTransGen_iff_eq_or_transGen.1 hbelow).resolve_left hne

/-- What declares above a class that stands above `c`, declares above `c`. -/
theorem declaringAncestors_subset (hacyclic : g.Acyclic) (ha : a ∈ g.declaringAncestors key c)
    (hb : b ∈ g.declaringAncestors key a) : b ∈ g.declaringAncestors key c := by
  have hca := transGen_of_mem_declaringAncestors hg ha
  have hab := transGen_of_mem_declaringAncestors hg hb
  refine (mem_declaringAncestors hg).2 ⟨?_, (hca.trans hab).to_reflTransGen, ?_⟩
  · rintro rfl
    exact hacyclic _ (hca.trans hab)
  · exact ((mem_declaringAncestors hg).1 hb).2.2

/-- A class with declarations above it has one above it that has none. The descent ends, since
a declaration has fewer above it than the class that it is above of. -/
theorem exists_first_declaration (hacyclic : g.Acyclic) (h : g.declaringAncestors key c ≠ []) :
    ∃ a ∈ g.declaringAncestors key c, g.declaringAncestors key a = [] := by
  induction hcount : (List.range g.classCount).countP (· ∈ g.declaringAncestors key c) using
    Nat.strongRecOn generalizing c with
  | _ count ih =>
    obtain ⟨a, ha⟩ := List.exists_mem_of_ne_nil _ h
    by_cases hfirst : g.declaringAncestors key a = []
    · exact ⟨a, ha, hfirst⟩
    · have hsub : ∀ b ∈ g.declaringAncestors key a, b ∈ g.declaringAncestors key c :=
        fun b hb => declaringAncestors_subset hg hacyclic ha hb
      have hself : a ∉ g.declaringAncestors key a := fun hmem =>
        ((mem_declaringAncestors hg).1 hmem).1 rfl
      have hlt : a < g.classCount := by
        obtain ⟨_, _, hstep⟩ := TransGen.tail'_iff.1 (transGen_of_mem_declaringAncestors hg ha)
        exact hg.supertypes_lt _ _ hstep
      have hless : (List.range g.classCount).countP (· ∈ g.declaringAncestors key a) < count := by
        rw [← hcount]
        exact countP_lt_countP (fun b _ hb => by simpa using hsub b (by simpa using hb))
          (List.mem_range.2 hlt) (by simpa using ha) (by simpa using hself)
      obtain ⟨b, hb, hnone⟩ := ih _ hless hfirst rfl
      exact ⟨b, hsub b hb, hnone⟩

variable (hs : g.SignaturesApart)

include hs

/-- A method that is not declared first overrides one that is. -/
theorem exists_overrides_source (hacyclic : g.Acyclic) (hm : m < g.methodCount)
    (h : g.isSource (g.method m).owner m = false) :
    ∃ n, g.Overrides m n ∧ g.isSource (g.method n).owner n = true := by
  obtain ⟨_, hsome⟩ := Bool.or_eq_false_iff.1 h
  rw [List.isEmpty_eq_false_iff] at hsome
  obtain ⟨a, ha, hnone⟩ := exists_first_declaration hg hacyclic hsome
  have hdecl := ((mem_declaringAncestors hg).1 ha).2.2
  obtain ⟨n, hn, rfl, hkey, hf⟩ := (declaresVirtual_iff hg hs.keysDistinct).1 hdecl
  obtain ⟨hname, hdesc⟩ := hs.eq_of_key_eq hn hm hkey
  refine ⟨n, ⟨hn, transGen_of_mem_declaringAncestors hg ha, hname, hdesc, hf⟩, ?_⟩
  unfold isSource
  rw [hkey, hnone, List.isEmpty_nil, Bool.or_true]

/-- What a virtual method overrides is in its family. -/
theorem Overrides.mem_family (h : g.Overrides m n) (hm : m < g.methodCount)
    (hf : (g.method m).isFixed = false) : n ∈ g.family (g.method m).owner m := by
  have hk := hs.keysDistinct
  have hdecl : g.declaresVirtual (g.method m).key (g.method m).owner = true :=
    (declaresVirtual_iff hg hk).2 ⟨m, hm, rfl, rfl, hf⟩
  have hdecl' : g.declaresVirtual (g.method m).key (g.method n).owner = true :=
    (declaresVirtual_iff hg hk).2 ⟨n, h.lt, rfl, h.key_eq, h.not_fixed⟩
  have hmeet : g.Meet (g.method m).key (g.method m).owner (g.method n).owner :=
    ⟨hdecl, hdecl', _, .refl, h.above.to_reflTransGen⟩
  have hslot := (mem_slot_of_virtual hg hf hdecl).2 (.single hmeet)
  rw [Graph.mem_family hg hk hm]
  exact .single (.inl ((mem_slotMethods hg hk).2 ⟨h.lt, h.key_eq, hslot⟩))

end

end StableNames.Graph
