-- Slots as classes of declarations. Among the classes that declare a
-- virtual method under one key, standing in one slot is an equivalence,
-- although the search goes up and down by different rules. The slot that
-- is found from a class lists that class first and nothing twice, and is
-- all that chains of declarations that meet lead to.
import StableNames.Proofs.Graph.Families

namespace StableNames.Graph

open Relation

variable {g : Graph} {key : String} {c d : ClassId} {m n : MethodId}

/-- `m` is a virtual method that `c` declares under the key. -/
structure Declares (g : Graph) (key : String) (c : ClassId) (m : MethodId) : Prop where
  listed : m ∈ (g.classInfo c).methods
  key_eq : (g.method m).key = key
  not_fixed : (g.method m).isFixed = false

theorem declaresVirtual_iff_exists (hg : g.Coherent) (hk : g.KeysDistinct) :
    g.declaresVirtual key c = true ↔ ∃ m, g.Declares key c m := by
  rw [declaresVirtual_iff hg hk]
  constructor
  · rintro ⟨m, hm, howner, hkey, hf⟩
    exact ⟨m, (hg.mem_methods c m).2 ⟨hm, howner⟩, hkey, hf⟩
  · rintro ⟨m, hlisted, hkey, hf⟩
    obtain ⟨hm, howner⟩ := (hg.mem_methods c m).1 hlisted
    exact ⟨m, hm, howner, hkey, hf⟩

/-- The slot of a declaration holds the declarations that chains of meetings lead to. -/
theorem Declares.mem_slot_iff (h : g.Declares key c m) (hg : g.Coherent) (hk : g.KeysDistinct) :
    d ∈ g.slot c m ↔ g.SameSlot key c d := by
  have hdecl := (declaresVirtual_iff_exists hg hk).2 ⟨m, h⟩
  obtain rfl := h.key_eq
  exact mem_slot_of_virtual hg h.not_fixed hdecl

theorem head?_slot (g : Graph) (c : ClassId) (m : MethodId) : (g.slot c m).head? = some c := by
  unfold slot
  split
  · rfl
  · rfl

theorem nodup_slot (g : Graph) (c : ClassId) (m : MethodId) : (g.slot c m).Nodup := by
  unfold slot
  split
  · exact List.nodup_singleton c
  · rw [List.nodup_cons]
    refine ⟨?_, Reach.nodup_spread.filter _⟩
    intro hc
    exact Reach.not_mem_of_mem_spread (List.mem_filter.1 hc).1 List.mem_cons_self

/-- The method that `c` declares under the key has `d` in its slot. -/
def InSlotOf (g : Graph) (key : String) (d c : ClassId) : Prop :=
  ∃ m, g.Declares key c m ∧ d ∈ g.slot c m

theorem inSlotOf_iff (hg : g.Coherent) (hk : g.KeysDistinct) (hc : ∃ m, g.Declares key c m) :
    g.InSlotOf key d c ↔ g.SameSlot key c d := by
  constructor
  · rintro ⟨m, hm, hd⟩
    exact (hm.mem_slot_iff hg hk).1 hd
  · intro h
    obtain ⟨m, hm⟩ := hc
    exact ⟨m, hm, (hm.mem_slot_iff hg hk).2 h⟩

/-- Whatever cycles and gaps the hierarchy has: on the classes that declare a virtual method under
a key, standing in one slot is reflexive, symmetric and transitive. The slot that is found from
such a class starts with it, has no class twice, and holds exactly the declaring classes that it
is linked to by a chain of declaring classes, of which each two neighbours have a class below
both of them. -/
theorem slots_are_equivalence_classes {source : String} {doc : Document}
    (hload : ofDocument source doc = .ok g) (hk : g.KeysDistinct) (key : String) :
    (Equivalence fun c d : { c // ∃ m, g.Declares key c m } => g.InSlotOf key d c) ∧
    ∀ c m, g.Declares key c m →
      (g.slot c m).head? = some c ∧ (g.slot c m).Nodup ∧
      ∀ d, d ∈ g.slot c m ↔ (∃ n, g.Declares key d n) ∧ g.SameSlot key c d := by
  have hg := coherent_of_ofDocument hload
  constructor
  case left =>
    constructor
    case refl =>
      intro c
      exact (inSlotOf_iff hg hk c.2).2 .refl
    case symm =>
      intro c d h
      have hcd := (inSlotOf_iff hg hk c.2).1 h
      exact (inSlotOf_iff hg hk d.2).2 hcd.symm
    case trans =>
      intro c d e h h'
      have hcd := (inSlotOf_iff hg hk c.2).1 h
      have hde := (inSlotOf_iff hg hk d.2).1 h'
      exact (inSlotOf_iff hg hk c.2).2 (ReflTransGen.trans hcd hde)
  case right =>
    intro c m h
    refine ⟨g.head?_slot c m, g.nodup_slot c m, ?_⟩
    intro d
    rw [h.mem_slot_iff hg hk, iff_and_self]
    intro hcd
    have hdecl := (declaresVirtual_iff_exists hg hk).2 ⟨m, h⟩
    exact (declaresVirtual_iff_exists hg hk).1 (hcd.declares hdecl)

/-- Class `c` inherits a method from `a` and from `i`, whose interface `j` stands above and below
it. Of its heirs `d` declares the method anew and `s` declares a static one. Class `e`, which also
has a superclass that is not there, declares it on its own. -/
def inheritedTwice : Document :=
  ⟨[{ name := "a", methods := [⟨"m", "()V", 0, []⟩] },
    { name := "i", interfaceNames := ["j"], methods := [⟨"m", "()V", 0, []⟩] },
    { name := "j", interfaceNames := ["i"] },
    { name := "c", superName? := some "a", interfaceNames := ["i"] },
    { name := "d", superName? := some "c", methods := [⟨"m", "()V", 0, []⟩] },
    { name := "s", superName? := some "c", methods := [⟨"m", "()V", staticBit, []⟩] },
    { name := "e", superName? := some "x", methods := [⟨"m", "()V", 0, []⟩] }]⟩

def inheritedTwiceGraph : Graph := (ofDocument "" inheritedTwice).toOption.getD {}

theorem slots_are_equivalence_classes_inherited :
    inheritedTwiceGraph.KeysDistinct ∧ inheritedTwiceGraph.Declares "m()V" 0 0 ∧
    (Equivalence fun c d : { c // ∃ m, inheritedTwiceGraph.Declares "m()V" c m } =>
      inheritedTwiceGraph.InSlotOf "m()V" d c) ∧
    ∀ d, d ∈ inheritedTwiceGraph.slot 0 0 ↔
      (∃ n, inheritedTwiceGraph.Declares "m()V" d n) ∧
        inheritedTwiceGraph.SameSlot "m()V" 0 d := by
  have hload : ofDocument "" inheritedTwice = .ok inheritedTwiceGraph := rfl
  have hk : inheritedTwiceGraph.KeysDistinct := by decide
  have hdecl : inheritedTwiceGraph.Declares "m()V" 0 0 := ⟨by decide, by decide, by decide⟩
  obtain ⟨hequiv, hslots⟩ := slots_are_equivalence_classes hload hk "m()V"
  exact ⟨hk, hdecl, hequiv, (hslots 0 0 hdecl).2.2⟩

/-- The slot goes up to both first declarations by way of the class that has none. -/
example : inheritedTwiceGraph.slot 4 2 = [4, 0, 1] ∧ inheritedTwiceGraph.slot 6 4 = [6] := by
  cbv

end StableNames.Graph
