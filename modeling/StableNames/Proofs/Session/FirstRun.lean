-- The first run of a graph. Without earlier names there is nothing to
-- decide and no name to give up, and a symbol is numbered in its own
-- category only. So the run gives a result and asks its policy nothing.
import StableNames.Proofs.Naming.Resolver
import StableNames.Proofs.Session.Asked
import StableNames.Proofs.Session.Attempts
import StableNames.Proofs.Session.Roster

namespace StableNames

/-! ## Numbers of the right category -/

/-- The category that the numbers of a symbol are of. -/
def Symbol.category : Symbol → Category
  | .ofClass _ => .ofClass
  | .ofField _ => .ofField
  | .ofMethod _ => .ofMethod

/-- Every number is of the category of its symbol. -/
def Allocator.Sorted (a : Allocator) : Prop :=
  ∀ s category k, a.numbers.get? s = some (category, k) → category = s.category

theorem Allocator.sorted_of_numbers_eq {a : Allocator} (h : a.numbers = ∅) : a.Sorted := by
  intro s category k hk
  rw [h, Assoc.get?_empty] at hk
  cases hk

theorem Allocator.Sorted.allocate {a : Allocator} (h : a.Sorted) (s : Symbol) :
    ∃ name a', a.allocate s s.category = .ok (name, a') ∧ a'.Sorted := by
  unfold Allocator.allocate
  rcases hs : a.numbers.get? s with _ | ⟨given, k⟩
  · refine ⟨_, _, rfl, ?_⟩
    intro s' category k hk
    rcases (Assoc.get?_insert_eq_some hs).1 hk with hk | ⟨rfl, hentry⟩
    · exact h s' category k hk
    · exact (Prod.mk.inj hentry).1
  · obtain rfl := h s given k hs
    simp only [if_true]
    exact ⟨_, _, rfl, h⟩

/-! ## Candidates -/

theorem Lineage.candidates_of_empty_chain {l : Lineage} (h : l.chain = {}) (c : ClassId)
    (m : MethodId) : l.candidates c m = [] := by
  have hclass : ∀ name desc suffix d, l.classHits name desc suffix d = [] := by
    intro name desc suffix d
    unfold classHits
    rw [h]
    rfl
  have hits : l.hits c m = [] := by
    unfold hits slotHits
    simp [hclass]
  unfold candidates
  rw [hits]
  simp [Candidate.ofHits, sortedSet]

namespace Session

open Naming

variable {μ : Type} {settings : Settings} {l : Lineage} {policy : Policy μ} {c : ClassId}
  {m : MethodId}

theorem exec_allocate_sorted {n : Naming} (hn : n.allocator.Sorted) (s : Symbol) :
    ∃ name a, (allocate s s.category).exec n = (.ok name, { n with allocator := a }) ∧
      n.allocator.allocate s s.category = .ok (name, a) ∧ a.Sorted := by
  obtain ⟨name, a, ha, hs⟩ := hn.allocate s
  exact ⟨name, a, by rw [exec_allocate, ha], ha, hs⟩

/-- A renamed class without an earlier name gets the next number. -/
theorem exec_classTarget_unknown {n : Naming} (hn : n.allocator.Sorted)
    (hkeep : keepsName settings (l.graph.classInfo c) = false)
    (hnone : l.chain.lookupClass (l.graph.className c) = none) (around : String) :
    ∃ t name a, (classTarget settings l c around).exec n = (.ok t, { n with allocator := a }) ∧
      n.allocator.allocate (.ofClass c) .ofClass = .ok (name, a) ∧ a.Sorted := by
  obtain ⟨name, a, hx, ha, hs⟩ := exec_allocate_sorted hn (.ofClass c)
  unfold Graph.className at hnone
  unfold classTarget
  simp only [hkeep, Bool.false_eq_true, if_false, hnone]
  exact ⟨_, name, a, Step.exec_bind_eq_ok.2 ⟨name, _, hx, rfl⟩, ha, hs⟩

/-! ## Symbols without an earlier name -/

theorem attempts_resolve_first (h : l.chain = {}) :
    Attempts (fun n => n.allocator.Sorted) True (resolve l policy c m) := by
  intro n memory hn
  have hnone := Lineage.candidates_of_empty_chain h c m
  have hcall := call_of_resolve l policy c m n memory
  rcases hx : (resolve l policy c m).exec (n, memory) with ⟨answer, n', memory'⟩
  rw [hx] at hcall
  cases hcall with
  | known => exact ⟨_, hn, .inl ⟨trivial, _, rfl⟩⟩
  | inherited =>
    refine ⟨_, ?_, .inl ⟨trivial, _, rfl⟩⟩
    exact hn
  | settled hu hc hs =>
    obtain ⟨name, a, ha, hsorted⟩ := hn.allocate (.ofMethod m)
    cases hs with
    | fresh ha' =>
      rw [Symbol.category, ha'] at ha
      cases ha
      refine ⟨_, ?_, .inl ⟨trivial, _, rfl⟩⟩
      exact hsorted
    | adopted => rw [hnone] at hc; cases hc
    | stale => rw [hnone] at hc; cases hc
    | refused _ ha' =>
      rw [Symbol.category, ha'] at ha
      cases ha
  | undecided hu hc => rw [hnone] at hc; cases hc
  | misplaced hu hc => rw [hnone] at hc; cases hc
  | decided hu hc => rw [hnone] at hc; cases hc

theorem attemptable_first (h : l.chain = {}) :
    Attemptable (fun n => n.allocator.Sorted) (fun _ => True) settings l policy where
  count _ _ _ _ hn := hn
  report _ _ hn := hn
  target c _ around n hn := by
    rcases hkeep : keepsName settings (l.graph.classInfo c) with _ | _
    · have hnone : l.chain.lookupClass (l.graph.className c) = none := by
        rw [h]
        rfl
      obtain ⟨t, name, a, hx, _, hs⟩ := exec_classTarget_unknown hn hkeep hnone around
      exact ⟨t, _, hx, hs⟩
    · exact ⟨_, n, exec_classTarget_kept hkeep around n, hn⟩
  field _ _ _ f _ _ n hn := by
    unfold fieldName
    rw [h]
    obtain ⟨name, a, hx, _, hs⟩ := exec_allocate_sorted hn (.ofField f)
    exact ⟨name, _, hx, hs⟩
  method _ _ _ _ := attempts_resolve_first h

/-! ## The whole run -/

/-- Without earlier names a session gives a result, as long as its numbers are of the right
categories. -/
theorem exists_generated_of_sorted {s : Session} (h : s.lineage.chain = {})
    (hsorted : s.naming.allocator.Sorted) (policy : Policy μ) (memory : μ) :
    ∃ out s', s.generate policy memory = (.ok out, s', memory) := by
  have hrun : Attempts (fun n => n.allocator.Sorted) True
      (allRecords s.settings s.lineage policy) :=
    (attemptable_first h).allRecords.congr (by simp)
  obtain ⟨rs, n', hx, _⟩ := hrun.exec_eq_ok hsorted memory
  exact ⟨result n' rs, { s with naming := n' }, generate_of_exec hx⟩

/-- Without earlier names a run gives a result, whatever its counters, and asks nothing. -/
theorem exists_generated (settings : Settings) (h : l.chain = {})
    (counters : List (Category × Nat)) (policy : Policy μ) (memory : μ) :
    ∃ out s', (applyCounters { settings, lineage := l } counters).generate policy memory =
      (.ok out, s', memory) :=
  @exists_generated_of_sorted _ (applyCounters { settings, lineage := l } counters) h
    (Allocator.sorted_of_numbers_eq rfl) policy memory

theorem asked_of_empty_chain (settings : Settings) (h : l.chain = {})
    (counters : List (Category × Nat)) (policy : Policy μ) (memory : μ) :
    (applyCounters { settings, lineage := l } counters).asked policy memory = [] := by
  obtain ⟨out, s', hgen⟩ := exists_generated settings h counters policy.traced (memory, [])
  unfold asked tracedRun
  rw [hgen]

end Session

end StableNames
