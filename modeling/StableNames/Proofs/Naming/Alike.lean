-- States that differ only in what was counted and reported. No step of
-- naming looks at that, so from two such states it gives the same and goes
-- to two such states.
import StableNames.Proofs.Naming.Growth

namespace StableNames

/-! ## Steps that do not see all of a state -/

namespace Step

variable {σ τ α β : Type} {R : σ → τ → Prop}

/-- From related states the steps give the same and go to related states. -/
def Parallel (R : σ → τ → Prop) (x : Step σ α) (y : Step τ α) : Prop :=
  ∀ s t, R s t → (y.exec t).1 = (x.exec s).1 ∧ R (x.exec s).2 (y.exec t).2

namespace Parallel

theorem pure (a : α) : Parallel R (pure a) (pure a) := fun _ _ h => ⟨rfl, h⟩

theorem throw (p : Problem) : Parallel R (throw p : Step σ α) (throw p) := fun _ _ h => ⟨rfl, h⟩

theorem modify {f : σ → σ} {g : τ → τ} (hf : ∀ s t, R s t → R (f s) (g t)) :
    Parallel R (modify f : Step σ Unit) (modify g) := fun s t h => ⟨rfl, hf s t h⟩

theorem bind {x : Step σ α} {y : Step τ α} {f : α → Step σ β} {g : α → Step τ β}
    (hx : Parallel R x y) (hf : ∀ a, Parallel R (f a) (g a)) :
    Parallel R (x >>= f) (y >>= g) := by
  intro s t h
  obtain ⟨hanswer, hstate⟩ := hx s t h
  rw [exec_bind, exec_bind]
  rcases hs : x.exec s with ⟨answer, s₁⟩
  rcases ht : y.exec t with ⟨answer', t₁⟩
  rw [hs, ht] at hanswer hstate
  obtain rfl : answer' = answer := hanswer
  rcases answer' with problem | a
  · exact ⟨rfl, hstate⟩
  · exact hf a s₁ t₁ hstate

theorem map {x : Step σ α} {y : Step τ α} (h : Parallel R x y) (f : α → β) :
    Parallel R (f <$> x) (f <$> y) := by
  rw [map_eq_pure_bind, map_eq_pure_bind]
  exact h.bind fun a => .pure (f a)

theorem mapM {ι : Type} {f : ι → Step σ α} {g : ι → Step τ α}
    (h : ∀ i, Parallel R (f i) (g i)) (is : List ι) : Parallel R (is.mapM f) (is.mapM g) := by
  induction is with
  | nil => exact .pure []
  | cons i is ih =>
    rw [List.mapM_cons, List.mapM_cons]
    exact (h i).bind fun a => ih.bind fun as => .pure (a :: as)

end Parallel

/-- From related states the step gives the same and goes to related states. -/
abbrev Respects (R : σ → σ → Prop) (x : Step σ α) : Prop := Parallel R x x

theorem onFirst_bind (x : Step σ α) (f : α → Step σ β) :
    ((x >>= f).onFirst : Step (σ × τ) β) = x.onFirst >>= fun a => (f a).onFirst := by
  funext ⟨s, t⟩
  show ((x >>= f).onFirst : Step (σ × τ) β).exec (s, t) = (x.onFirst >>= _).exec (s, t)
  rw [exec_onFirst, exec_bind, exec_bind, exec_onFirst]
  rcases x.exec s with ⟨_ | a, s₁⟩ <;> rfl

@[simp] theorem onFirst_pure (a : α) :
    ((pure a : Step σ α).onFirst : Step (σ × τ) α) = pure a := rfl

end Step

/-! ## States that name alike -/

namespace Naming

/-- The states have the same names and numbers, and the same number of decisions. They may
have counted and reported different things. -/
structure Alike (n n' : Naming) : Prop where
  resolved : n'.resolved = n.resolved
  allocator : n'.allocator = n.allocator
  decided : n'.tally.decided = n.tally.decided

namespace Alike

variable {n n' n'' : Naming}

theorem refl (n : Naming) : n.Alike n := ⟨rfl, rfl, rfl⟩

theorem symm (h : n.Alike n') : n'.Alike n :=
  ⟨h.resolved.symm, h.allocator.symm, h.decided.symm⟩

theorem trans (h : n.Alike n') (h' : n'.Alike n'') : n.Alike n'' :=
  ⟨h'.resolved.trans h.resolved, h'.allocator.trans h.allocator, h'.decided.trans h.decided⟩

theorem retains (h : n.Alike n') : n.Retains n' := .of_eq h.resolved h.allocator

end Alike

/-- The relation sees all names and numbers. It does not see reports, and it is kept if both
states change in the same way. -/
structure Blind (R : Naming → Naming → Prop) : Prop where
  resolved : ∀ {n n' : Naming}, R n n' → n'.resolved = n.resolved
  allocator : ∀ {n n' : Naming}, R n n' → n'.allocator = n.allocator
  name : ∀ {n n' : Naming}, R n n' → ∀ resolved, R { n with resolved } { n' with resolved }
  number : ∀ {n n' : Naming}, R n n' → ∀ allocator, R { n with allocator } { n' with allocator }
  rename : ∀ {n n' : Naming}, R n n' →
    R { n with renamed := n.renamed + 1 } { n' with renamed := n'.renamed + 1 }
  count : ∀ {n n' : Naming}, R n n' → ∀ f : Tally → Tally, (∀ t, (f t).decided = t.decided) →
    R { n with tally := f n.tally } { n' with tally := f n'.tally }
  report : ∀ {n n' : Naming}, R n n' → ∀ log log', R { n with log } { n' with log := log' }

theorem blind_alike : Blind Alike where
  resolved h := h.resolved
  allocator h := h.allocator
  name h _ := ⟨rfl, h.allocator, h.decided⟩
  number h _ := ⟨h.resolved, rfl, h.decided⟩
  rename h := ⟨h.resolved, h.allocator, h.decided⟩
  count h _ hf := ⟨h.resolved, h.allocator, (hf _).trans (h.decided.trans (hf _).symm)⟩
  report h _ _ := ⟨h.resolved, h.allocator, h.decided⟩

section Blind

variable {l : Lineage} {c : ClassId} {m : MethodId} {R : Naming → Naming → Prop} (hR : Blind R)

include hR

theorem respects_allocate (symbol : Symbol) (category : Category) :
    Step.Respects R (allocate symbol category) := by
  intro n n' h
  rw [exec_allocate, exec_allocate, hR.allocator h]
  rcases n.allocator.allocate symbol category with problem | ⟨name, a⟩
  · exact ⟨rfl, h⟩
  · exact ⟨rfl, hR.number h a⟩

theorem respects_report (notice : Notice) : Step.Respects R (report notice) :=
  .modify fun _ _ h => hR.report h _ _

theorem respects_remember (family : List MethodId) (name : String) :
    Step.Respects R (remember m family name) := by
  apply Step.Parallel.modify
  intro n n' h
  rw [hR.resolved h]
  exact hR.name h _

theorem respects_replace (stale : String) (symbol : Symbol) (category : Category) :
    Step.Respects R (replace stale symbol category) :=
  (respects_allocate hR symbol category).bind fun _ => (respects_report hR _).bind fun _ => .pure _

theorem respects_settle (family : List MethodId) (candidate? : Option Candidate) :
    Step.Respects R (settle m family candidate?) := by
  have hkeep : ∀ name, Step.Respects R (remember m family name >>= fun _ => pure name) :=
    fun name => (respects_remember hR family name).bind fun _ => .pure name
  have hrename : Step.Respects R
      (modify fun n => { n with renamed := n.renamed + 1 } : Step Naming Unit) :=
    .modify fun _ _ h => hR.rename h
  unfold settle
  rcases candidate? with _ | candidate
  · exact (respects_allocate hR _ _).bind hkeep
  · simp only
    split
    · exact hkeep candidate.name
    · exact (respects_replace hR _ _ _).bind fun name => hrename.bind fun _ => hkeep name

theorem respects_begin : Step.Respects R (begin l c m) := by
  intro n n' h
  unfold begin
  rw [Step.exec_bind, Step.exec_bind, Step.exec_get, Step.exec_get]
  simp only
  rw [hR.resolved h]
  refine (?_ : Step.Respects R _) n n' h
  rcases n.resolved.get? m with _ | name
  · simp only
    rcases (l.graph.family c m).findSome? n.resolved.get? with _ | name
    · simp only
      split
      · exact (respects_settle hR _ none).map _
      · exact (respects_settle hR _ (some _)).map _
      · exact (respects_report hR _).bind fun _ => .pure _
    · exact (respects_remember hR _ _).bind fun _ => .pure _
  · exact .pure _

theorem respects_complete (pending : Pending) (place : Nat) :
    Step.Respects R (complete pending place) := by
  unfold complete
  split
  · exact .throw _
  · exact (respects_remember hR _ _).bind fun _ => (respects_report hR _).bind fun _ => .pure _

end Blind

end Naming

end StableNames
