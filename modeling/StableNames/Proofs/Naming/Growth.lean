-- What grows in a run. No call takes back a number or the name of a
-- method, and no number is given twice. All names are clean, and they have
-- their marker, provided that the policy chose none without one.
import StableNames.Proofs.Naming.CleanNames
import StableNames.Proofs.Naming.FamilyNames
import StableNames.Proofs.Naming.Numbers
import StableNames.Proofs.Session.Asked

namespace StableNames

namespace Naming

/-- Numbers and names of methods of the first state are also those of the second, and the
numbers stay tidy. -/
structure Retains (n n' : Naming) : Prop where
  resolved : ∀ m name, n.resolved.get? m = some name → n'.resolved.get? m = some name
  numbers : ∀ s e, n.allocator.numbers.get? s = some e → n'.allocator.numbers.get? s = some e
  tidy : ∀ first, n.allocator.Tidy first → n'.allocator.Tidy first

theorem Retains.refl (n : Naming) : n.Retains n :=
  ⟨fun _ _ h => h, fun _ _ h => h, fun _ h => h⟩

theorem Retains.trans {n₁ n₂ n₃ : Naming} (h : n₁.Retains n₂) (h' : n₂.Retains n₃) :
    n₁.Retains n₃ :=
  ⟨fun m name hm => h'.resolved m name (h.resolved m name hm),
    fun s e hs => h'.numbers s e (h.numbers s e hs),
    fun first ht => h'.tidy first (h.tidy first ht)⟩

/-- A state with the same names and the same allocator retains all. -/
theorem Retains.of_eq {n n' : Naming} (hresolved : n'.resolved = n.resolved)
    (hallocator : n'.allocator = n.allocator) : n.Retains n' := by
  refine ⟨?_, ?_, ?_⟩
  · rw [hresolved]
    exact fun _ _ h => h
  · rw [hallocator]
    exact fun _ _ h => h
  · rw [hallocator]
    exact fun _ h => h

/-- The name that the allocator gave to a symbol. -/
def issued (n : Naming) (s : Symbol) : String :=
  match n.allocator.numbers.get? s with
  | some (category, k) => category.name k
  | none => ""

end Naming

/-- The allocator gives the number that it then holds, and keeps all others. -/
theorem Allocator.allocate_eq_ok {a a' : Allocator} {s : Symbol} {category : Category}
    {name : String} (h : a.allocate s category = .ok (name, a')) :
    (∀ s' e, a.numbers.get? s' = some e → a'.numbers.get? s' = some e) ∧
      ∃ k, a'.numbers.get? s = some (category, k) ∧ name = category.name k := by
  unfold allocate at h
  split at h
  · rename_i given k hk
    split at h
    · rename_i heq
      subst heq
      cases h
      exact ⟨fun _ _ h => h, k, hk, rfl⟩
    · cases h
  · rename_i hnone
    cases h
    refine ⟨fun s' e he => ?_, _, Assoc.get?_insert_self _ _ _, rfl⟩
    simp only
    rw [Assoc.get?_insert, if_neg, he]
    rintro rfl
    rw [hnone] at he
    cases he

/-- The numbers of other symbols are as they were. -/
theorem Allocator.get?_allocate_of_ne {a a' : Allocator} {s s' : Symbol} {category : Category}
    {name : String} (h : a.allocate s category = .ok (name, a')) (hne : s ≠ s') :
    a'.numbers.get? s' = a.numbers.get? s' := by
  unfold allocate at h
  split at h
  · split at h
    · cases h
      rfl
    · cases h
  · cases h
    simp only
    rw [Assoc.get?_insert, if_neg hne]

namespace Naming

variable {μ : Type} {l : Lineage} {policy : Policy μ} {c : ClassId} {m : MethodId}
  {n n' : Naming} {memory memory' : μ} {answer : Except Problem String} {name : String}

theorem issued_eq {s : Symbol} {category : Category} {k : Nat}
    (h : n.allocator.numbers.get? s = some (category, k)) : n.issued s = category.name k := by
  unfold issued
  rw [h]

theorem Call.retains (h : Call l policy c m n memory answer n' memory') : n.Retains n' := by
  refine ⟨fun k name hk => h.keeps_name hk, ?numbers, ?tidy⟩
  case numbers =>
    cases h with
    | settled hu hc hs =>
      cases hs with
      | fresh ha => exact (Allocator.allocate_eq_ok ha).1
      | stale _ ha => exact (Allocator.allocate_eq_ok ha).1
      | _ =>
        intro _ _ h
        exact h
    | _ =>
      intro _ _ h
      exact h
  case tidy =>
    intro first htidy
    cases h with
    | settled hu hc hs =>
      cases hs with
      | fresh ha => exact htidy.allocate ha
      | stale _ ha => exact htidy.allocate ha
      | _ => exact htidy
    | _ => exact htidy

/-! ## Properties of all names -/

/-- All names of methods have the property. -/
def NamesAll (P : String → Prop) (n : Naming) : Prop :=
  ∀ m name, n.resolved.get? m = some name → P name

theorem NamesAll.withNames {P : String → Prop} (h : n.NamesAll P) {methods : List MethodId}
    (hname : P name) : (n.withNames methods name).NamesAll P := by
  intro k name' hk
  rw [get?_withNames] at hk
  split at hk
  · cases hk
    exact hname
  · exact h k name' hk

/-- A property of fresh names, of marked candidates and of what the policy chooses is one of
all names. -/
theorem Call.namesAll {P : String → Prop} (h : Call l policy c m n memory answer n' memory')
    (hfresh : ∀ k, P (Category.ofMethod.name k))
    (hadopted : ∀ candidate ∈ l.candidates c m,
      Category.ofMethod.owns candidate.name = true → P candidate.name)
    (hchosen : memory' = (policy.decide (l.conflict c m) memory).memory → ∀ place candidate,
      (policy.decide (l.conflict c m) memory).answer = .ok place →
        (l.candidates c m)[place]? = some candidate → P candidate.name)
    (hn : n.NamesAll P) : n'.NamesAll P := by
  cases h with
  | known => exact hn
  | inherited hm hf hk => exact hn.withNames (hn _ _ hk)
  | settled hu hc hs =>
    cases hs with
    | fresh ha =>
      obtain ⟨_, k, _, rfl⟩ := Allocator.allocate_eq_ok ha
      exact NamesAll.withNames hn (hfresh k)
    | adopted ho => exact hn.withNames (hadopted _ (by rw [hc]; exact List.mem_cons_self) ho)
    | stale _ ha =>
      obtain ⟨_, k, _, rfl⟩ := Allocator.allocate_eq_ok ha
      exact NamesAll.withNames hn (hfresh k)
    | refused => exact hn
  | undecided => exact hn
  | misplaced => exact hn
  | decided hu hc hd hp => exact hn.withNames (hchosen rfl _ _ hd hp)

/-- The names of methods have the marker. -/
def Marked (n : Naming) : Prop := n.NamesAll fun name => Category.ofMethod.owns name = true

end Naming

/-- Every choice in the talk is a name with the marker. -/
def Talk.Marked (talk : Talk) : Prop :=
  ∀ e ∈ talk, ∀ place candidate, e.2 = .ok place → e.1.candidates[place]? = some candidate →
    Category.ofMethod.owns candidate.name = true

namespace Naming

variable {μ : Type} {l : Lineage} {policy : Policy μ} {c : ClassId} {m : MethodId}
  {n n' : Naming} {memory memory' : μ × Talk} {answer : Except Problem String} {name : String}

/-- What every state of a run keeps: families are uniform if keys are distinct, all names are
clean, and they have their marker if the choices of the policy had it. -/
structure Sane (g : Graph) (n : Naming) (memory : μ × Talk) : Prop where
  uniform : g.KeysDistinct → Uniform g n
  clean : n.NamesAll CleanName
  marked : memory.2.Marked → n.Marked

/-- A state without names of methods is sane. -/
theorem sane_of_resolved_eq {g : Graph} (h : n.resolved = ∅) : Sane g n memory := by
  have hnone : ∀ m name, n.resolved.get? m ≠ some name := by
    intro m name hm
    rw [h, Assoc.get?_empty] at hm
    cases hm
  exact ⟨fun _ => uniform_of_resolved_eq h, fun m name hm => absurd hm (hnone m name),
    fun _ m name hm => absurd hm (hnone m name)⟩

/-- What names the same methods is as sane. -/
theorem Sane.congr {g : Graph} (h : Sane g n memory) (he : n'.resolved = n.resolved) :
    Sane g n' memory := by
  refine ⟨fun hkeys => (h.uniform hkeys).congr he, ?_, fun htalk => ?_⟩
  · unfold NamesAll
    rw [he]
    exact h.clean
  · unfold Marked NamesAll
    rw [he]
    exact h.marked htalk

theorem Call.talk (h : Call l policy.traced c m n memory answer n' memory') :
    ∀ e ∈ memory.2, e ∈ memory'.2 := by
  cases h with
  | undecided =>
    intro e he
    exact List.mem_append_left _ he
  | misplaced =>
    intro e he
    exact List.mem_append_left _ he
  | decided =>
    intro e he
    exact List.mem_append_left _ he
  | _ =>
    intro e he
    exact he

theorem Call.marked (h : Call l policy.traced c m n memory answer n' memory') (hn : n.Marked)
    (htalk : memory'.2.Marked) : n'.Marked := by
  apply h.namesAll (fun k => Category.owns_name _ k) (fun _ _ ho => ho) ?_ hn
  intro hmemory place candidate hd hp
  have hasked : (l.conflict c m, (Policy.decide policy (l.conflict c m) memory.1).answer) ∈
      memory'.2 := by
    rw [hmemory]
    exact List.mem_append_right _ List.mem_cons_self
  exact htalk _ hasked place candidate hd hp

theorem Sane.call {g : Graph} (hn : Sane g n memory)
    (h : Call l policy.traced c m n memory answer n' memory')
    (huniform : g.KeysDistinct → Uniform g n')
    (hclean : ∀ candidate ∈ l.candidates c m, CleanName candidate.name) : Sane g n' memory' := by
  refine ⟨huniform, ?_, ?_⟩
  · refine h.namesAll (fun k => Category.clean_name _ k) (fun candidate hc _ => hclean _ hc) ?_
      hn.clean
    intro _ place candidate _ hp
    exact hclean _ (List.mem_of_getElem? hp)
  · intro htalk
    exact h.marked (hn.marked fun e he => htalk e (h.talk e he)) htalk

end Naming

end StableNames
