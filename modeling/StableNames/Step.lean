-- Steps that change a state and may fail. A step that fails keeps what it
-- changed before, so that a run can be taken up again.
import StableNames.Problem

namespace StableNames

/-- A step on states of type `σ`. -/
abbrev Step (σ α : Type) := ExceptT Problem (StateM σ) α

namespace Step

variable {σ τ α : Type}

/-- The outcome of a step, and the state after it. -/
def exec (x : Step σ α) (s : σ) : Except Problem α × σ := x.run s

/-- A step that changes nothing. -/
def ofExcept (x : Except Problem α) : Step σ α := ExceptT.mk fun s => (x, s)

/-- A step on the first part of a state. -/
def onFirst (x : Step σ α) : Step (σ × τ) α :=
  ExceptT.mk fun (s, t) =>
    let (result, s) := x.exec s
    (result, s, t)

@[simp] theorem exec_pure (a : α) (s : σ) : (pure a : Step σ α).exec s = (.ok a, s) := rfl

@[simp] theorem exec_throw (p : Problem) (s : σ) :
    (throw p : Step σ α).exec s = (.error p, s) := rfl

theorem exec_bind {β : Type} (x : Step σ α) (f : α → Step σ β) (s : σ) :
    (x >>= f).exec s =
      match x.exec s with
      | (.ok a, s) => (f a).exec s
      | (.error p, s) => (.error p, s) := by
  simp only [exec, ExceptT.run_bind]
  show (StateT.bind (ExceptT.run x) _ : StateM σ _) s = _
  simp only [StateT.bind]
  rcases ExceptT.run x s with ⟨_ | _, _⟩ <;> simp <;> rfl

@[simp] theorem exec_get (s : σ) : (get : Step σ σ).exec s = (.ok s, s) := rfl

@[simp] theorem exec_set (s s' : σ) : (set s' : Step σ Unit).exec s = (.ok (), s') := rfl

@[simp] theorem exec_modify (f : σ → σ) (s : σ) :
    (modify f : Step σ Unit).exec s = (.ok (), f s) := rfl

@[simp] theorem exec_onFirst (x : Step σ α) (s : σ) (t : τ) :
    (x.onFirst : Step (σ × τ) α).exec (s, t) = ((x.exec s).1, (x.exec s).2, t) := rfl

theorem exec_map {β : Type} (f : α → β) (x : Step σ α) (s : σ) :
    (f <$> x).exec s = ((x.exec s).1.map f, (x.exec s).2) := by
  rw [map_eq_pure_bind, exec_bind]
  rcases x.exec s with ⟨_ | _, _⟩ <;> rfl

/-- A step that succeeds succeeds in each of its parts. -/
theorem exec_bind_eq_ok {β : Type} {x : Step σ α} {f : α → Step σ β} {s s' : σ} {b : β} :
    (x >>= f).exec s = (.ok b, s') ↔
      ∃ a s₁, x.exec s = (.ok a, s₁) ∧ (f a).exec s₁ = (.ok b, s') := by
  rw [exec_bind]
  rcases x.exec s with ⟨_ | a, s₁⟩
  · simp
  · constructor
    · intro h
      exact ⟨a, s₁, rfl, h⟩
    · rintro ⟨_, _, h, h'⟩
      cases h
      exact h'

end Step

end StableNames
