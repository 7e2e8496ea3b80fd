-- Families. Two methods are kindred if they stand in one slot or are
-- related to one another. The family that the search finds from a method
-- is all that is kindred to it, directly or by way of others, so every
-- member has the same family.
import StableNames.Naming.Family
import StableNames.Proofs.Graph.Slots

namespace StableNames.Graph

open Relation

variable {g : Graph} {c d : ClassId} {k m n r : MethodId}

/-- No class declares two methods under one key. -/
def KeysDistinct (g : Graph) : Prop :=
  ∀ m < g.methodCount, ∀ n < g.methodCount,
    (g.method m).owner = (g.method n).owner → (g.method m).key = (g.method n).key → m = n

instance (g : Graph) : Decidable g.KeysDistinct := by
  unfold KeysDistinct
  infer_instance

theorem methodIn?_key (hg : g.Coherent) (hk : g.KeysDistinct) (hm : m < g.methodCount) :
    g.methodIn? (g.method m).owner (g.method m).key = some m := by
  have hmem := (hg.mem_methods _ _).2 ⟨hm, rfl⟩
  obtain ⟨n, hn⟩ : ∃ n, g.methodIn? (g.method m).owner (g.method m).key = some n := by
    rw [← Option.isSome_iff_exists]
    unfold methodIn?
    rw [List.find?_isSome]
    exact ⟨m, by simpa using hmem, by simp⟩
  obtain ⟨hin, hkey⟩ := methodIn?_eq_some hn
  obtain ⟨hlt, howner⟩ := (hg.mem_methods _ _).1 hin
  rw [hn, hk n hlt m hm howner hkey]

theorem methodIn?_iff (hg : g.Coherent) (hk : g.KeysDistinct) {key : String} :
    g.methodIn? c key = some m ↔
      m < g.methodCount ∧ (g.method m).owner = c ∧ (g.method m).key = key := by
  constructor
  · intro h
    obtain ⟨hin, hkey⟩ := methodIn?_eq_some h
    obtain ⟨hlt, howner⟩ := (hg.mem_methods _ _).1 hin
    exact ⟨hlt, howner, hkey⟩
  · rintro ⟨hm, rfl, rfl⟩
    exact methodIn?_key hg hk hm

theorem declaresVirtual_iff (hg : g.Coherent) (hk : g.KeysDistinct) {key : String} :
    g.declaresVirtual key c = true ↔ ∃ m < g.methodCount, (g.method m).owner = c ∧
      (g.method m).key = key ∧ (g.method m).isFixed = false := by
  unfold declaresVirtual
  rw [Option.any_eq_true]
  simp only [methodIn?_iff hg hk, Bool.not_eq_true']
  constructor
  · rintro ⟨m, ⟨hm, ho, hkey⟩, hf⟩
    exact ⟨m, hm, ho, hkey, hf⟩
  · rintro ⟨m, hm, ho, hkey, hf⟩
    exact ⟨m, ⟨hm, ho, hkey⟩, hf⟩

/-! ## The methods of a slot -/

theorem mem_slotMethods (hg : g.Coherent) (hk : g.KeysDistinct) :
    n ∈ g.slotMethods c m ↔
      n < g.methodCount ∧ (g.method n).key = (g.method m).key ∧
        (g.method n).owner ∈ g.slot c m := by
  unfold slotMethods
  simp only [List.mem_filterMap, methodIn?_iff hg hk]
  constructor
  · rintro ⟨d, hd, hn, rfl, hkey⟩
    exact ⟨hn, hkey, hd⟩
  · rintro ⟨hn, hkey, hd⟩
    exact ⟨_, hd, hn, rfl, hkey⟩

theorem self_mem_slotMethods (hg : g.Coherent) (hk : g.KeysDistinct) (hm : m < g.methodCount) :
    m ∈ g.slotMethods (g.method m).owner m :=
  (mem_slotMethods hg hk).2 ⟨hm, rfl, g.self_mem_slot _ _⟩

/-- Each class of a slot declares a method of it. -/
theorem exists_mem_slotMethods (hg : g.Coherent) (hk : g.KeysDistinct) (hm : m < g.methodCount)
    (hd : d ∈ g.slot (g.method m).owner m) :
    ∃ n ∈ g.slotMethods (g.method m).owner m, (g.method n).owner = d := by
  by_cases hself : d = (g.method m).owner
  · exact ⟨m, self_mem_slotMethods hg hk hm, hself.symm⟩
  · have hslot := hd
    unfold slot at hd
    split at hd
    · exact absurd (List.mem_singleton.1 hd) hself
    · have hdecl := (List.mem_filter.1 ((List.mem_cons.1 hd).resolve_left hself)).2
      obtain ⟨n, hn, rfl, hkey, _⟩ := (declaresVirtual_iff hg hk).1 hdecl
      exact ⟨n, (mem_slotMethods hg hk).2 ⟨hn, hkey, hslot⟩, rfl⟩

/-- The slot of a method that takes no part in overriding has no other method. -/
theorem eq_of_mem_slotMethods_of_fixed (hg : g.Coherent) (hk : g.KeysDistinct)
    (hm : m < g.methodCount) (hf : (g.method m).isFixed = true)
    (hn : n ∈ g.slotMethods (g.method m).owner m) : n = m := by
  obtain ⟨hlt, hkey, hslot⟩ := (mem_slotMethods hg hk).1 hn
  rw [slot_of_fixed hf, List.mem_singleton] at hslot
  exact hk n hlt m hm hslot hkey

/-- A slot is the same from each of its methods. -/
theorem mem_slot_congr (hg : g.Coherent) (hk : g.KeysDistinct) (hm : m < g.methodCount)
    (hn : n ∈ g.slotMethods (g.method m).owner m) :
    d ∈ g.slot (g.method n).owner n ↔ d ∈ g.slot (g.method m).owner m := by
  obtain ⟨hlt, hkey, hslot⟩ := (mem_slotMethods hg hk).1 hn
  rcases hf : (g.method m).isFixed with _ | _
  · have hdecl : g.declaresVirtual (g.method m).key (g.method m).owner = true :=
      (declaresVirtual_iff hg hk).2 ⟨m, hm, rfl, rfl, hf⟩
    have hsame := (mem_slot_of_virtual hg hf hdecl).1 hslot
    have hdecl' := hsame.declares hdecl
    obtain ⟨n', hlt', ho', hkey', hf'⟩ := (declaresVirtual_iff hg hk).1 hdecl'
    obtain rfl : n' = n := hk n' hlt' n hlt ho' (hkey'.trans hkey.symm)
    rw [mem_slot_of_virtual hg hf hdecl, mem_slot_of_virtual hg hf' (hkey ▸ hdecl'), hkey]
    exact ⟨fun h => hsame.trans h, fun h => hsame.symm.trans h⟩
  · rw [eq_of_mem_slotMethods_of_fixed hg hk hm hf hn]

theorem mem_slotMethods_congr (hg : g.Coherent) (hk : g.KeysDistinct) (hm : m < g.methodCount)
    (hn : n ∈ g.slotMethods (g.method m).owner m) :
    k ∈ g.slotMethods (g.method n).owner n ↔ k ∈ g.slotMethods (g.method m).owner m := by
  rw [mem_slotMethods hg hk, mem_slotMethods hg hk, mem_slot_congr hg hk hm hn,
    ((mem_slotMethods hg hk).1 hn).2.1]

theorem mem_slotRelated :
    (d, r) ∈ g.slotRelated c m ↔
      d = (g.method r).owner ∧ ∃ k ∈ g.slotMethods c m, r ∈ g.relatedTo k := by
  unfold slotRelated slotMethods
  simp only [List.mem_flatMap, List.mem_filterMap]
  constructor
  · rintro ⟨e, he, h⟩
    unfold relatedMethods at h
    split at h
    · cases h
    · rename_i own hown
      obtain ⟨r', hr', heq⟩ := List.mem_map.1 h
      cases heq
      exact ⟨rfl, own, ⟨e, he, hown⟩, hr'⟩
  · rintro ⟨rfl, own, ⟨e, he, hown⟩, hr⟩
    refine ⟨e, he, ?_⟩
    unfold relatedMethods
    rw [hown]
    exact List.mem_map.2 ⟨r, hr, rfl⟩

/-! ## Kindred methods -/

/-- Both methods stand in one slot, or one is a bridge or an erasure of the other. -/
def Kindred (g : Graph) (m n : MethodId) : Prop :=
  n ∈ g.slotMethods (g.method m).owner m ∨ n ∈ g.relatedTo m

theorem Kindred.lt (hg : g.Coherent) (hk : g.KeysDistinct) (h : g.Kindred m n) :
    n < g.methodCount := by
  rcases h with h | h
  · exact ((mem_slotMethods hg hk).1 h).1
  · exact hg.related_lt _ _ h

theorem Kindred.symm (hg : g.Coherent) (hk : g.KeysDistinct) (hm : m < g.methodCount)
    (h : g.Kindred m n) : g.Kindred n m := by
  rcases h with h | h
  · exact .inl ((mem_slotMethods_congr hg hk hm h).2 (self_mem_slotMethods hg hk hm))
  · exact .inr (hg.related_symm _ _ h)

/-- All that is kindred to a method, directly or by way of others. -/
def Akin (g : Graph) : MethodId → MethodId → Prop := ReflTransGen g.Kindred

theorem Akin.lt (hg : g.Coherent) (hk : g.KeysDistinct) (hm : m < g.methodCount)
    (h : g.Akin m n) : n < g.methodCount := by
  rcases ReflTransGen.cases_tail h with rfl | ⟨_, _, h⟩
  · exact hm
  · exact h.lt hg hk

theorem Akin.symm (hg : g.Coherent) (hk : g.KeysDistinct) (hm : m < g.methodCount)
    (h : g.Akin m n) : g.Akin n m := by
  induction h with
  | refl => exact .refl
  | tail hmx hxn ih => exact .head (hxn.symm hg hk (Akin.lt hg hk hm hmx)) ih

/-! ## The search -/

/-- Each entry is a method of the graph, with its owner. -/
def Owned (g : Graph) (agenda : List (ClassId × MethodId)) : Prop :=
  ∀ e ∈ agenda, e.1 = (g.method e.2).owner ∧ e.2 < g.methodCount

/-- The methods that the visits find. -/
def methodsOf (g : Graph) (visits : List (ClassId × MethodId)) : List MethodId :=
  visits.flatMap fun (d, n) => n :: g.slotMethods d n

theorem owned_slotRelated (hg : g.Coherent) (c : ClassId) (m : MethodId) :
    g.Owned (g.slotRelated c m) := by
  intro e he
  obtain ⟨ho, k, _, hr⟩ := mem_slotRelated.1 he
  exact ⟨ho, hg.related_lt _ _ hr⟩

theorem owned_step (hg : g.Coherent) {agenda : List (ClassId × MethodId)}
    (h : g.Owned ((c, m) :: agenda)) : g.Owned (g.slotRelated c m ++ agenda) := by
  intro e he
  rcases List.mem_append.1 he with he | he
  · exact owned_slotRelated hg c m e he
  · exact h e (List.mem_cons_of_mem _ he)

/-- What is looked at is akin to something on the agenda. -/
theorem akin_of_mem_visitsFrom (hg : g.Coherent) {found : List MethodId}
    {agenda : List (ClassId × MethodId)} (ha : g.Owned agenda)
    {e : ClassId × MethodId} (he : e ∈ g.visitsFrom found agenda) :
    e.1 = (g.method e.2).owner ∧ e.2 < g.methodCount ∧ ∃ s ∈ agenda, g.Akin s.2 e.2 := by
  fun_induction visitsFrom g found agenda with
  | case1 => cases he
  | case2 found c m agenda hm ih =>
    obtain ⟨ho, hlt, s, hs, hse⟩ := ih (fun e he => ha e (List.mem_cons_of_mem _ he)) he
    exact ⟨ho, hlt, s, List.mem_cons_of_mem _ hs, hse⟩
  | case3 found c m agenda hm ih =>
    have hcm := ha _ List.mem_cons_self
    rcases List.mem_cons.1 he with rfl | he
    · exact ⟨hcm.1, hcm.2, _, List.mem_cons_self, .refl⟩
    · obtain ⟨ho, hlt, s, hs, hse⟩ := ih (owned_step hg ha) he
      refine ⟨ho, hlt, ?_⟩
      rcases List.mem_append.1 hs with hs | hs
      · obtain ⟨_, k, hk, hr⟩ := mem_slotRelated.1 hs
        obtain rfl : c = (g.method m).owner := hcm.1
        exact ⟨_, List.mem_cons_self, .head (.inl hk) (.head (.inr hr) hse)⟩
      · exact ⟨s, List.mem_cons_of_mem _ hs, hse⟩

/-- Each found method has its kindred among the found, or on the agenda. -/
def Closed (g : Graph) (found : List MethodId) (agenda : List (ClassId × MethodId)) : Prop :=
  ∀ x ∈ found, ∀ y, g.Kindred x y → y ∈ found ∨ ((g.method y).owner, y) ∈ agenda

/-- Once a slot is looked at, what is akin to one of its methods by a single step is in the
slot or was put on the agenda with it. -/
theorem closed_step (hg : g.Coherent) (hk : g.KeysDistinct) {found : List MethodId}
    {agenda : List (ClassId × MethodId)} (ha : g.Owned ((c, m) :: agenda))
    (hc : g.Closed found ((c, m) :: agenda)) :
    g.Closed (m :: g.slotMethods c m ++ found) (g.slotRelated c m ++ agenda) := by
  obtain ⟨ho, hm⟩ : c = (g.method m).owner ∧ m < g.methodCount := ha _ List.mem_cons_self
  subst ho
  have hslot : ∀ x ∈ g.slotMethods (g.method m).owner m, ∀ y, g.Kindred x y →
      y ∈ g.slotMethods (g.method m).owner m ∨
        ((g.method y).owner, y) ∈ g.slotRelated (g.method m).owner m := by
    rintro x hx y (hy | hy)
    · exact .inl ((mem_slotMethods_congr hg hk hm hx).1 hy)
    · exact .inr (mem_slotRelated.2 ⟨rfl, x, hx, hy⟩)
  intro x hx y hxy
  simp only [List.cons_append, List.mem_cons, List.mem_append] at hx ⊢
  rcases hx with rfl | hx | hx
  · rcases hslot x (self_mem_slotMethods hg hk hm) y hxy with h | h
    · exact .inl (.inr (.inl h))
    · exact .inr (.inl h)
  · rcases hslot x hx y hxy with h | h
    · exact .inl (.inr (.inl h))
    · exact .inr (.inl h)
  · rcases hc x hx y hxy with h | h
    · exact .inl (.inr (.inr h))
    · rcases List.mem_cons.1 h with h | h
      · exact .inl (.inl (Prod.ext_iff.1 h).2)
      · exact .inr (.inr h)

theorem visitsFrom_closed (hg : g.Coherent) (hk : g.KeysDistinct) {found : List MethodId}
    {agenda : List (ClassId × MethodId)} (ha : g.Owned agenda) (hc : g.Closed found agenda) :
    (∀ s ∈ agenda, s.2 ∈ found ++ g.methodsOf (g.visitsFrom found agenda)) ∧
      g.Closed (found ++ g.methodsOf (g.visitsFrom found agenda)) [] := by
  fun_induction visitsFrom g found agenda with
  | case1 found =>
    refine ⟨by simp, ?_⟩
    simpa [methodsOf] using hc
  | case2 found c m agenda hm ih =>
    have hin : m ∈ found := hm.resolve_right (Nat.not_le.2 (ha _ List.mem_cons_self).2)
    obtain ⟨hall, hclosed⟩ := ih (fun e he => ha e (List.mem_cons_of_mem _ he)) (by
      intro x hx y hxy
      rcases hc x hx y hxy with h | h
      · exact .inl h
      · rcases List.mem_cons.1 h with h | h
        · obtain ⟨_, rfl⟩ := Prod.ext_iff.1 h
          exact .inl hin
        · exact .inr h)
    refine ⟨?_, hclosed⟩
    intro s hs
    rcases List.mem_cons.1 hs with rfl | hs
    · exact List.mem_append_left _ hin
    · exact hall s hs
  | case3 found c m agenda hm ih =>
    obtain ⟨hall, hclosed⟩ := ih (owned_step hg ha) (closed_step hg hk ha hc)
    have hmem : ∀ x, x ∈ found ++ g.methodsOf ((c, m) :: g.visitsFrom
          (m :: g.slotMethods c m ++ found) (g.slotRelated c m ++ agenda)) ↔
        x ∈ m :: g.slotMethods c m ++ found ++ g.methodsOf (g.visitsFrom
          (m :: g.slotMethods c m ++ found) (g.slotRelated c m ++ agenda)) := by
      intro x
      simp only [methodsOf, List.flatMap_cons, List.mem_append, List.mem_cons]
      tauto
    constructor
    · intro s hs
      rw [hmem]
      rcases List.mem_cons.1 hs with rfl | hs
      · simp
      · exact hall s (List.mem_append_right _ hs)
    · intro x hx y hxy
      rw [hmem] at hx ⊢
      exact hclosed x hx y hxy

/-! ## The family of a method -/

theorem mem_family_iff (c : ClassId) : n ∈ g.family c m ↔ n ∈ g.methodsOf (g.visits c m) := by
  unfold family methodsOf
  exact List.mem_eraseDups

theorem owned_start (hm : m < g.methodCount) : g.Owned [((g.method m).owner, m)] := by
  intro e he
  rw [List.mem_singleton] at he
  subst he
  exact ⟨rfl, hm⟩

/-- What is looked at belongs to the family. -/
theorem akin_of_mem_visits (hg : g.Coherent) (hm : m < g.methodCount)
    (h : (d, n) ∈ g.visits (g.method m).owner m) :
    d = (g.method n).owner ∧ n < g.methodCount ∧ g.Akin m n := by
  obtain ⟨ho, hlt, s, hs, hsn⟩ := akin_of_mem_visitsFrom hg (owned_start hm) h
  rw [List.mem_singleton] at hs
  subst hs
  exact ⟨ho, hlt, hsn⟩

/-- The first that is looked at is the method itself. -/
theorem self_mem_visits (hm : m < g.methodCount) :
    ((g.method m).owner, m) ∈ g.visits (g.method m).owner m := by
  unfold visits visitsFrom
  rw [dif_neg]
  · exact List.mem_cons_self
  · rw [not_or]
    exact ⟨List.not_mem_nil, Nat.not_le.2 hm⟩

theorem mem_family (hg : g.Coherent) (hk : g.KeysDistinct) (hm : m < g.methodCount) :
    n ∈ g.family (g.method m).owner m ↔ g.Akin m n := by
  rw [mem_family_iff]
  constructor
  · intro h
    unfold methodsOf at h
    obtain ⟨⟨d, k⟩, hv, hn⟩ := List.mem_flatMap.1 h
    obtain ⟨rfl, hlt, hmk⟩ := akin_of_mem_visits hg hm hv
    rcases List.mem_cons.1 hn with rfl | hn
    · exact hmk
    · exact hmk.tail (.inl hn)
  · intro h
    obtain ⟨hall, hclosed⟩ := visitsFrom_closed hg hk (owned_start hm)
      (fun x hx => absurd hx List.not_mem_nil)
    rw [List.nil_append] at hall hclosed
    induction h with
    | refl => exact hall _ List.mem_cons_self
    | tail _ hxy ih => exact (hclosed _ ih _ hxy).resolve_right List.not_mem_nil

/-- Members of one family have the same family. -/
theorem mem_family_congr (hg : g.Coherent) (hk : g.KeysDistinct) (hm : m < g.methodCount)
    (hn : n ∈ g.family (g.method m).owner m) :
    k ∈ g.family (g.method n).owner n ↔ k ∈ g.family (g.method m).owner m := by
  have hmn := (mem_family hg hk hm).1 hn
  rw [mem_family hg hk (hmn.lt hg hk hm), mem_family hg hk hm]
  exact ⟨fun h => hmn.trans h, fun h => (hmn.symm hg hk hm).trans h⟩

theorem self_mem_family (hg : g.Coherent) (hk : g.KeysDistinct) (hm : m < g.methodCount) :
    m ∈ g.family (g.method m).owner m := (mem_family hg hk hm).2 .refl

end StableNames.Graph
