-- What a policy is asked in a run. A policy that also writes down each
-- conflict and its answer decides as before, so the run with it is the
-- same run, and at its end shows all that was asked.
import StableNames.Proofs.Session.Steps

namespace StableNames

namespace Step

variable {σ τ α β : Type} {view : σ → τ}

/-- `x` is `y` on states that hold more than `view` shows. -/
def Shows (view : σ → τ) (x : Step σ α) (y : Step τ α) : Prop :=
  ∀ s, y.exec (view s) = ((x.exec s).1, view (x.exec s).2)

theorem Shows.pure (a : α) : Shows view (pure a) (pure a) := fun _ => rfl

theorem Shows.bind {x : Step σ α} {y : Step τ α} {f : α → Step σ β} {f' : α → Step τ β}
    (h : Shows view x y) (hf : ∀ a, Shows view (f a) (f' a)) :
    Shows view (x >>= f) (y >>= f') := by
  intro s
  rw [exec_bind, exec_bind, h s]
  rcases x.exec s with ⟨_ | a, s'⟩
  · rfl
  · exact hf a s'

theorem Shows.mapM {ι : Type} {f : ι → Step σ β} {f' : ι → Step τ β}
    (hf : ∀ i, Shows view (f i) (f' i)) (is : List ι) :
    Shows view (is.mapM f) (is.mapM f') := by
  induction is with
  | nil => exact .pure _
  | cons i is ih =>
    rw [List.mapM_cons, List.mapM_cons]
    exact (hf i).bind fun _ => ih.bind fun _ => .pure _

end Step

/-- The conflicts of a run, each with what the policy answered. -/
abbrev Talk := List (Conflict × Except Problem Nat)

variable {μ : Type} {policy : Policy μ} {l : Lineage} {c : ClassId} {m : MethodId}

/-- The policy, with what it is asked written down. -/
def Policy.traced (policy : Policy μ) : Policy (μ × Talk) where
  decide conflict memory :=
    let decision := policy.decide conflict memory.1
    { answer := decision.answer
      memory := (decision.memory, memory.2 ++ [(conflict, decision.answer)])
      notices := decision.notices }

/-- What is left of a state without the talk. -/
def untraced {σ : Type} (s : σ × μ × Talk) : σ × μ := (s.1, s.2.1)

theorem shows_onFirst {σ α : Type} (x : Step σ α) :
    Step.Shows (untraced (μ := μ)) x.onFirst x.onFirst := fun _ => rfl

namespace Naming

theorem shows_consult (conflict : Conflict) :
    Step.Shows untraced (consult policy.traced conflict) (consult policy conflict) := by
  intro ⟨n, memory, talk⟩
  unfold consult untraced
  simp only [Step.exec_bind, Step.exec_get, Step.exec_set, Policy.traced]
  rcases (policy.decide conflict memory).answer with _ | _ <;> rfl

theorem shows_resolve :
    Step.Shows untraced (resolve l policy.traced c m) (resolve l policy c m) := by
  apply (shows_onFirst _).bind
  intro r
  cases r with
  | settled name => exact .pure _
  | pending pending =>
    apply (shows_consult _).bind
    intro place
    refine Step.Shows.bind ?_ fun _ => shows_onFirst _
    intro _
    rfl

end Naming

namespace Session

variable {settings : Settings}

theorem shows_methodRecord :
    Step.Shows untraced (methodRecord l policy.traced c m) (methodRecord l policy c m) := by
  rw [methodRecord_eq, methodRecord_eq]
  have hname : Step.Shows untraced (newMethodName l policy.traced c m)
      (newMethodName l policy c m) := by
    unfold newMethodName
    split
    · exact Naming.shows_resolve
    · exact .pure _
  apply hname.bind
  intro name
  apply (shows_onFirst _).bind
  intro _
  exact .pure _

theorem shows_classRecords (target : String) :
    Step.Shows untraced (classRecords settings l policy.traced c target)
      (classRecords settings l policy c target) := by
  rcases h : settings.isIncluded (l.graph.className c) with _ | _
  · rw [classRecords_of_not_included _ _ _ _ _ h, classRecords_of_not_included _ _ _ _ _ h]
    exact .pure _
  · rw [classRecords_eq _ _ _ _ _ h, classRecords_eq _ _ _ _ _ h]
    apply (shows_onFirst _).bind
    intro _
    apply (Step.Shows.mapM (fun _ => shows_onFirst _) _).bind
    intro fields
    apply (Step.Shows.mapM (fun _ => shows_methodRecord) _).bind
    intro methods
    exact .pure _

theorem shows_records (targets : List String) (classes : List ClassId) :
    Step.Shows untraced (records settings l policy.traced targets classes)
      (records settings l policy targets classes) := by
  induction classes generalizing targets with
  | nil => exact .pure _
  | cons c rest ih =>
    unfold records
    apply (shows_onFirst _).bind
    intro target
    apply (shows_classRecords _).bind
    intro here
    apply (ih _).bind
    intro _
    exact .pure _

theorem shows_allRecords :
    Step.Shows untraced (allRecords settings l policy.traced) (allRecords settings l policy) := by
  unfold allRecords
  simp only
  split
  · exact (shows_onFirst _).bind fun _ => shows_records _ _
  · exact shows_records _ _

/-- The run with all that is asked written down. -/
def tracedRun (s : Session) (policy : Policy μ) (memory : μ) :
    Except Problem Generated × Session × μ × Talk :=
  s.generate policy.traced (memory, [])

/-- What the policy is asked in a run. -/
def asked (s : Session) (policy : Policy μ) (memory : μ) : Talk :=
  (s.tracedRun policy memory).2.2.2

/-- Writing down what is asked changes nothing else. -/
theorem generate_eq_tracedRun (s : Session) (policy : Policy μ) (memory : μ) :
    s.generate policy memory =
      ((s.tracedRun policy memory).1, (s.tracedRun policy memory).2.1,
        (s.tracedRun policy memory).2.2.1) := by
  have h := @shows_allRecords _ policy s.lineage s.settings (s.naming, memory, [])
  unfold tracedRun generate
  rw [show (s.naming, memory) = untraced (s.naming, memory, ([] : Talk)) from rfl, h]
  rcases (allRecords s.settings s.lineage policy.traced).exec (s.naming, memory, []) with
    ⟨_ | rs, n, memory, talk⟩ <;> rfl

end Session

end StableNames
