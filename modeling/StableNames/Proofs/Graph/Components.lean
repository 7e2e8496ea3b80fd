-- Families are components. Whoever goes on from a method to the others of
-- its override slot, or to what it is related to, gets to every member of
-- its family and to nothing else. All these moves can be taken back, so a
-- method is in exactly one family, whichever member asks for it.
import StableNames.Proofs.Graph.Families
import StableNames.Proofs.Naming.Candidates

namespace StableNames.Graph

open Relation

variable {g : Graph} {m n : MethodId}

/-- A move from a method: for a virtual one, to another declaration of its slot, and for any,
to a method that it is related to. -/
def Move (g : Graph) (m n : MethodId) : Prop :=
  ((g.method m).isFixed = false ∧ n < g.methodCount ∧ (g.method n).key = (g.method m).key ∧
    (g.method n).owner ∈ g.slot (g.method m).owner m) ∨ n ∈ g.relatedTo m

/-- Methods are kindred without a move only if they are the same. -/
theorem kindred_iff_move (hg : g.Coherent) (hk : g.KeysDistinct) (hm : m < g.methodCount) :
    g.Kindred m n ↔ n = m ∨ g.Move m n := by
  constructor
  · rintro (h | h)
    · by_cases hf : (g.method m).isFixed = true
      · exact .inl (eq_of_mem_slotMethods_of_fixed hg hk hm hf h)
      · rw [Bool.not_eq_true] at hf
        exact .inr (.inl ⟨hf, (mem_slotMethods hg hk).1 h⟩)
    · exact .inr (.inr h)
  · rintro (rfl | ⟨_, h⟩ | h)
    · exact .inl (self_mem_slotMethods hg hk hm)
    · exact .inl ((mem_slotMethods hg hk).2 h)
    · exact .inr h

theorem Move.lt (hg : g.Coherent) (h : g.Move m n) : n < g.methodCount := by
  rcases h with ⟨_, hn, _⟩ | h
  · exact hn
  · exact hg.related_lt _ _ h

/-- A move can be taken back: a slot is the same from each of its declarations, and related
methods know each other. -/
theorem Move.symm (hg : g.Coherent) (hk : g.KeysDistinct) (hm : m < g.methodCount)
    (h : g.Move m n) : g.Move n m := by
  have hn := h.lt hg
  have hback := ((kindred_iff_move hg hk hm).2 (.inr h)).symm hg hk hm
  rcases (kindred_iff_move hg hk hn).1 hback with rfl | h'
  · exact h
  · exact h'

theorem akin_iff_moves (hg : g.Coherent) (hk : g.KeysDistinct) (hm : m < g.methodCount) :
    g.Akin m n ↔ ReflTransGen g.Move m n := by
  constructor
  · intro h
    induction h with
    | refl => exact .refl
    | tail hmx hxn ih =>
      rcases (kindred_iff_move hg hk (Akin.lt hg hk hm hmx)).1 hxn with rfl | hmove
      · exact ih
      · exact ih.tail hmove
  · intro h
    induction h with
    | refl => exact .refl
    | tail _ hxn ih =>
      exact ih.tail ((kindred_iff_move hg hk (Akin.lt hg hk hm ih)).2 (.inr hxn))

theorem nodup_family (g : Graph) (c : ClassId) (m : MethodId) : (g.family c m).Nodup := by
  unfold family
  exact nodup_eraseDups _

/-- The family that is found from a method lists, without repetition, what moves between the
methods of a slot and between related methods get to. Each of these moves can be taken back, so
a method is in the family of another if and only if that one is in its own, and then both
families have the same members. -/
theorem families_are_connected_components {source : String} {doc : Document}
    (hload : ofDocument source doc = .ok g) (hk : g.KeysDistinct) (hm : m < g.methodCount) :
    (g.family (g.method m).owner m).Nodup ∧
    (∀ n, g.Move m n → g.Move n m) ∧
    (∀ n, n ∈ g.family (g.method m).owner m ↔ ReflTransGen g.Move m n) ∧
    ∀ n < g.methodCount,
      (n ∈ g.family (g.method m).owner m ↔ m ∈ g.family (g.method n).owner n) ∧
      (n ∈ g.family (g.method m).owner m →
        ∀ k, k ∈ g.family (g.method n).owner n ↔ k ∈ g.family (g.method m).owner m) := by
  have hg := coherent_of_ofDocument hload
  refine ⟨g.nodup_family _ _, ?_, ?_, ?_⟩
  · intro n h
    exact h.symm hg hk hm
  · intro n
    rw [mem_family hg hk hm, akin_iff_moves hg hk hm]
  · intro n hn
    constructor
    · rw [mem_family hg hk hm, mem_family hg hk hn]
      exact ⟨fun h => h.symm hg hk hm, fun h => h.symm hg hk hn⟩
    · intro h k
      exact mem_family_congr hg hk hm h

/-- Two interfaces that stand above each other, and two classes below. Class `c` implements both
methods and has a bridge between them; `d` also has a superclass that is not there. -/
def bridgedCycle : Document :=
  ⟨[{ name := "a", access := interfaceBit, interfaceNames := ["b"],
      methods := [⟨"m", "()V", 0, []⟩] },
    { name := "b", access := interfaceBit, interfaceNames := ["a"],
      methods := [⟨"n", "()V", 0, []⟩] },
    { name := "c", interfaceNames := ["a"],
      methods := [⟨"m", "()V", bridgeBit, [⟨"c", "n", "()V"⟩]⟩, ⟨"n", "()V", 0, []⟩] },
    { name := "d", superName? := some "x", interfaceNames := ["b"],
      methods := [⟨"n", "()V", 0, []⟩, ⟨"m", "()V", staticBit, []⟩] }]⟩

def bridgedCycleGraph : Graph := (ofDocument "" bridgedCycle).toOption.getD {}

theorem families_are_connected_components_cycle :
    bridgedCycleGraph.KeysDistinct ∧ 0 < bridgedCycleGraph.methodCount ∧
    (∀ n, n ∈ bridgedCycleGraph.family (bridgedCycleGraph.method 0).owner 0 ↔
      ReflTransGen bridgedCycleGraph.Move 0 n) := by
  have hload : ofDocument "" bridgedCycle = .ok bridgedCycleGraph := rfl
  have hk : bridgedCycleGraph.KeysDistinct := by decide
  have hm : 0 < bridgedCycleGraph.methodCount := by decide
  obtain ⟨_, _, hreach, _⟩ := families_are_connected_components hload hk hm
  exact ⟨hk, hm, hreach⟩

/-- The bridge brings both methods into one family; the static one stays apart. -/
example : bridgedCycleGraph.family 0 0 = [0, 2, 3, 1, 4] ∧ bridgedCycleGraph.family 3 5 = [5] := by
  cbv

end StableNames.Graph
