-- Choices. A policy that is asked picks one of the candidates, and that is
-- the name of the family, with the marker or without. Every other name of a
-- method has the marker. A call that fails leaves it at that too.
import StableNames.Proofs.Naming.Growth

namespace StableNames

/-- The answer to the conflict is the place of a candidate with this name. -/
def Picks (e : Conflict × Except Problem Nat) (name : String) : Prop :=
  ∃ place candidate, e.2 = .ok place ∧ e.1.candidates[place]? = some candidate ∧
    candidate.name = name

/-- The name was chosen in one of the conflicts. -/
def Talk.Chose (talk : Talk) (name : String) : Prop := ∃ e ∈ talk, Picks e name

namespace Naming

variable {μ : Type} {l : Lineage} {policy : Policy μ} {c : ClassId} {m : MethodId}
  {n n' : Naming} {memory memory' : μ × Talk} {answer : Except Problem String}
  {talk talk' : Talk}

/-- Names of methods have the marker, or they were chosen. -/
def Backed (talk : Talk) (n : Naming) : Prop :=
  n.NamesAll fun name => Category.ofMethod.owns name = true ∨ talk.Chose name

theorem Backed.mono (h : n.Backed talk) (hsub : talk ⊆ talk') : n.Backed talk' := by
  intro m name hm
  rcases h m name hm with ho | ⟨e, he, hpicks⟩
  · exact .inl ho
  · exact .inr ⟨e, hsub he, hpicks⟩

theorem Backed.congr (h : n.Backed talk) (he : n'.resolved = n.resolved) : n'.Backed talk := by
  unfold Backed NamesAll
  rw [he]
  exact h

theorem backed_of_resolved_eq (h : n.resolved = ∅) : n.Backed talk := by
  intro m name hm
  rw [h, Assoc.get?_empty] at hm
  cases hm

/-- A call asks about its own method at most, and gives the name that is chosen. -/
theorem Call.exists_asked (h : Call l policy.traced c m n memory answer n' memory') :
    ∃ new, memory'.2 = memory.2 ++ new ∧ ∀ e ∈ new, e.1 = l.conflict c m ∧
      ∀ name, answer = .ok name → Picks e name := by
  cases h with
  | undecided =>
    refine ⟨_, rfl, ?_⟩
    intro e he
    rw [List.mem_singleton.1 he]
    exact ⟨rfl, fun _ h => by cases h⟩
  | misplaced =>
    refine ⟨_, rfl, ?_⟩
    intro e he
    rw [List.mem_singleton.1 he]
    exact ⟨rfl, fun _ h => by cases h⟩
  | decided _ _ hd hp =>
    refine ⟨_, rfl, ?_⟩
    intro e he
    rw [List.mem_singleton.1 he]
    refine ⟨rfl, ?_⟩
    intro name hname
    cases hname
    exact ⟨_, _, hd, hp, rfl⟩
  | _ => exact ⟨[], (List.append_nil _).symm, by simp⟩

/-- A call leaves all names backed, also when it fails. -/
theorem Call.backed {new : Talk} (h : Call l policy.traced c m n memory answer n' memory')
    (hnew : memory'.2 = memory.2 ++ new) (hsub : new ⊆ talk) (hn : n.Backed talk) :
    n'.Backed talk := by
  apply h.namesAll (fun k => .inl (Category.owns_name _ k)) (fun _ _ ho => .inl ho) ?_ hn
  intro hmemory place candidate hd hp
  have hasked : new =
      [(l.conflict c m, (Policy.decide policy (l.conflict c m) memory.1).answer)] := by
    rw [hmemory] at hnew
    exact (List.append_cancel_left hnew).symm
  have hmem : (l.conflict c m, (Policy.decide policy (l.conflict c m) memory.1).answer) ∈ talk :=
    hsub (hasked ▸ List.mem_cons_self)
  exact .inr ⟨_, hmem, place, candidate, hd, hp, rfl⟩

/-- The first call of a session gives what the policy chooses, with the marker or without. -/
theorem exists_exec_resolve_chosen {memory : μ} {place : Nat} {candidate : Candidate}
    (hnone : n.resolved = ∅) (hc : 2 ≤ (l.candidates c m).length)
    (hd : (policy.decide (l.conflict c m) memory).answer = .ok place)
    (hp : (l.candidates c m)[place]? = some candidate) :
    ∃ n', (resolve l policy c m).exec (n, memory) =
      (.ok candidate.name, n', (policy.decide (l.conflict c m) memory).memory) := by
  have hcall := call_of_resolve l policy c m n memory
  rcases hx : (resolve l policy c m).exec (n, memory) with ⟨answer, n', memory'⟩
  rw [hx] at hcall
  obtain ⟨rfl, rfl⟩ := (hcall.contested hnone hc).2 place candidate hd hp
  exact ⟨_, rfl⟩

end Naming

end StableNames
