-- Override slots. Two declarations of a virtual method meet if some class
-- lies below both of them. The slot of a declaration holds all that meet
-- it, directly or by way of others, so it is the same set of classes from
-- whichever of them it is looked at.
import StableNames.Proofs.Graph.Arena
import StableNames.Proofs.Reach

namespace StableNames.Graph

open Relation Reach

variable {g : Graph} {key : String} {a b c d e x : ClassId} {m n : MethodId}

/-! ## Above and below -/

/-- `x` is `a` or stands below it. -/
def Below (g : Graph) (x a : ClassId) : Prop := ReflTransGen (Next g.supertypes) x a

theorem below_iff (hg : g.Coherent) : g.Below x a ↔ ReflTransGen (Next g.subtypes) a x := by
  have hswap : Next g.subtypes = Function.swap (Next g.supertypes) := by
    funext y z
    exact propext (hg.mem_subtypes y z)
  rw [Below, hswap, reflTransGen_swap]

theorem mem_descendants (hg : g.Coherent) : x ∈ g.descendants a ↔ x ≠ a ∧ g.Below x a := by
  rw [below_iff hg]
  exact mem_spread hg.subtypes_lt

theorem mem_declaringAncestors (hg : g.Coherent) :
    a ∈ g.declaringAncestors key x ↔
      a ≠ x ∧ g.Below x a ∧ g.declaresVirtual key a = true := by
  unfold declaringAncestors
  rw [List.mem_filter, mem_preorder hg.supertypes_lt, and_assoc]
  rfl

theorem mem_neighbours (hg : g.Coherent) :
    b ∈ g.neighbours key a ↔ b ≠ a ∧
      (g.Below a b ∧ g.declaresVirtual key b = true ∨ g.Below b a) := by
  unfold neighbours
  rw [List.mem_append, mem_declaringAncestors hg, mem_descendants hg, ← and_or_left]

theorem neighbours_lt (hg : g.Coherent) : Bounded g.classCount (g.neighbours key) := by
  intro x y hy
  unfold neighbours at hy
  rcases List.mem_append.1 hy with h | h
  · obtain ⟨hne, hxy, _⟩ := (mem_declaringAncestors hg).1 h
    rcases ReflTransGen.cases_tail hxy with rfl | ⟨z, _, hzy⟩
    · exact absurd rfl hne
    · exact hg.supertypes_lt _ _ hzy
  · obtain ⟨hne, hyx⟩ := (mem_descendants hg).1 h
    rcases ReflTransGen.cases_tail ((below_iff hg).1 hyx) with rfl | ⟨z, _, hzy⟩
    · exact absurd rfl hne
    · exact hg.subtypes_lt _ _ hzy

/-! ## Declarations that meet -/

/-- Both classes declare a virtual method under the key, and a class lies below both. -/
def Meet (g : Graph) (key : String) (a b : ClassId) : Prop :=
  g.declaresVirtual key a = true ∧ g.declaresVirtual key b = true ∧
    ∃ x, g.Below x a ∧ g.Below x b

/-- The declarations of one slot. -/
def SameSlot (g : Graph) (key : String) : ClassId → ClassId → Prop :=
  ReflTransGen (g.Meet key)

theorem Meet.symm (h : g.Meet key a b) : g.Meet key b a := by
  obtain ⟨ha, hb, x, hxa, hxb⟩ := h
  exact ⟨hb, ha, x, hxb, hxa⟩

theorem SameSlot.symm (h : g.SameSlot key a b) : g.SameSlot key b a := by
  induction h with
  | refl => exact .refl
  | tail _ hab ih => exact .head hab.symm ih

theorem SameSlot.declares (h : g.SameSlot key a b) (ha : g.declaresVirtual key a = true) :
    g.declaresVirtual key b = true := by
  rcases ReflTransGen.cases_tail h with rfl | ⟨y, _, hyb⟩
  · exact ha
  · exact hyb.2.1

/-- From a declaration the search gets to a class only from a declaration of the same slot
that stands above it. -/
theorem exists_sameSlot_of_reached (hg : g.Coherent) (hc : g.declaresVirtual key c = true)
    (h : ReflTransGen (Next (g.neighbours key)) c x) :
    ∃ a, g.SameSlot key c a ∧ g.Below x a := by
  induction h with
  | refl => exact ⟨c, .refl, .refl⟩
  | tail _ hxy ih =>
    obtain ⟨a, hca, hxa⟩ := ih
    rcases ((mem_neighbours hg).1 hxy).2 with ⟨hxy, hy⟩ | hyx
    · exact ⟨_, .tail hca ⟨hca.declares hc, hy, _, hxa, hxy⟩, .refl⟩
    · exact ⟨a, hca, ReflTransGen.trans hyx hxa⟩

/-- Down to the class below both, and up from it to the other declaration. -/
theorem reached_of_meet (hg : g.Coherent) (h : g.Meet key a b) :
    ReflTransGen (Next (g.neighbours key)) a b := by
  obtain ⟨ha, hb, x, hxa, hxb⟩ := h
  have hax : ReflTransGen (Next (g.neighbours key)) a x := by
    by_cases he : x = a
    · exact he ▸ .refl
    · exact .single ((mem_neighbours hg).2 ⟨he, .inr hxa⟩)
  by_cases he : b = x
  · exact he ▸ hax
  · exact .tail hax ((mem_neighbours hg).2 ⟨he, .inl ⟨hxb, hb⟩⟩)

theorem reached_of_sameSlot (hg : g.Coherent) (h : g.SameSlot key a b) :
    ReflTransGen (Next (g.neighbours key)) a b := by
  induction h with
  | refl => exact .refl
  | tail _ hab ih => exact ih.trans (reached_of_meet hg hab)

/-- The search from a declaration finds the declarations of its slot. -/
theorem sameSlot_iff (hg : g.Coherent) (hc : g.declaresVirtual key c = true) :
    g.SameSlot key c d ↔ g.declaresVirtual key d = true ∧
      ReflTransGen (Next (g.neighbours key)) c d := by
  constructor
  · intro h
    exact ⟨h.declares hc, reached_of_sameSlot hg h⟩
  · rintro ⟨hd, h⟩
    obtain ⟨a, hca, hda⟩ := exists_sameSlot_of_reached hg hc h
    exact .tail hca ⟨hca.declares hc, hd, d, hda, .refl⟩

/-! ## The slot of a method -/

theorem slot_of_fixed (hm : (g.method m).isFixed = true) : g.slot c m = [c] := by
  unfold slot
  rw [if_pos hm]

theorem self_mem_slot (g : Graph) (c : ClassId) (m : MethodId) : c ∈ g.slot c m := by
  unfold slot
  split <;> simp

theorem mem_slot_of_virtual (hg : g.Coherent) (hm : (g.method m).isFixed = false)
    (hc : g.declaresVirtual (g.method m).key c = true) :
    d ∈ g.slot c m ↔ g.SameSlot (g.method m).key c d := by
  unfold slot
  rw [if_neg (by simp [hm]), List.mem_cons, List.mem_filter, mem_spread (neighbours_lt hg),
    sameSlot_iff hg hc]
  by_cases he : d = c
  · subst he
    simp [hc, ReflTransGen.refl]
  · simp [he, and_comm]

end StableNames.Graph
