-- Steps that can be taken up again. A step that fails leaves its numbers
-- and the names of its families behind. Done again from there, it finds all
-- of them and comes to the point of the failure in the same state. A policy
-- that had all answers at once would have brought it there too, and from
-- there on the two cannot be told apart.
import StableNames.Proofs.Naming.Alike

namespace StableNames

/-! ## Policies that go on for others -/

/-- The second policy goes on with `later` where the first one gives up, and `joint` relates
what the first one remembers to what the second one remembers if it decides for both. Then it
decides as the first one does, and where that one gives up, as it would with `later` alone. -/
structure Policy.GoesOn {μ ν : Type} (first : Policy μ) (second : Policy ν) (later : ν)
    (joint : μ → ν → Prop) : Prop where
  in_range : ∀ conflict memory place, (first.decide conflict memory).answer = .ok place →
    place < conflict.candidates.length
  decides : ∀ conflict memory both place, joint memory both →
    (first.decide conflict memory).answer = .ok place →
      (second.decide conflict both).answer = .ok place ∧
        joint (first.decide conflict memory).memory (second.decide conflict both).memory
  gives_up : ∀ conflict memory both problem, joint memory both →
    (first.decide conflict memory).answer = .error problem →
      (second.decide conflict later).answer = (second.decide conflict both).answer ∧
        (second.decide conflict later).memory = (second.decide conflict both).memory

theorem place?_lt {conflict : Conflict} {choice place : Nat}
    (h : conflict.place? choice = some place) : place < conflict.candidates.length := by
  unfold Conflict.place? at h
  split at h
  · cases h
    omega
  · cases h

theorem takeChoice_lt {conflict : Conflict} {choices : List Nat} {place : Nat}
    (h : (takeChoice conflict choices).answer = .ok place) :
    place < conflict.candidates.length := by
  induction choices with
  | nil => cases h
  | cons choice rest ih =>
    unfold takeChoice at h
    split at h
    · rename_i hplace
      cases h
      exact place?_lt hplace
    · exact ih h

/-- Choices that are enough are taken in the same way if more follow. -/
theorem takeChoice_append_of_ok {conflict : Conflict} {choices : List Nat} {place : Nat}
    (later : List Nat) (h : (takeChoice conflict choices).answer = .ok place) :
    (takeChoice conflict (choices ++ later)).answer = .ok place ∧
      (takeChoice conflict (choices ++ later)).memory =
        (takeChoice conflict choices).memory ++ later := by
  induction choices with
  | nil => cases h
  | cons choice rest ih =>
    rw [List.cons_append]
    unfold takeChoice at h ⊢
    rcases hplace : conflict.place? choice with _ | place'
    · rw [hplace] at h
      exact ih h
    · rw [hplace] at h
      exact ⟨h, rfl⟩

/-- Choices that are all out of range do not matter. -/
theorem takeChoice_append_of_error {conflict : Conflict} {choices : List Nat} {problem : Problem}
    (later : List Nat) (h : (takeChoice conflict choices).answer = .error problem) :
    (takeChoice conflict later).answer = (takeChoice conflict (choices ++ later)).answer ∧
      (takeChoice conflict later).memory = (takeChoice conflict (choices ++ later)).memory := by
  induction choices with
  | nil => exact ⟨rfl, rfl⟩
  | cons choice rest ih =>
    rw [List.cons_append]
    unfold takeChoice at h
    rw [takeChoice.eq_def conflict (choice :: _)]
    rcases hplace : conflict.place? choice with _ | place
    · rw [hplace] at h
      simp only [hplace]
      exact ih h
    · rw [hplace] at h
      cases h

/-- More choices go on for those that were there before. -/
theorem Policy.script_goesOn (later : List Nat) :
    Policy.script.GoesOn Policy.script later fun earlier both => both = earlier ++ later where
  in_range _ _ _ h := takeChoice_lt h
  decides _ _ _ _ hboth h := by
    subst hboth
    exact takeChoice_append_of_ok later h
  gives_up _ _ _ _ hboth h := by
    subst hboth
    exact takeChoice_append_of_error later h

/-- What comes after a policy that refuses all conflicts decides alone. -/
theorem Policy.fail_goesOn {ν : Type} (second : Policy ν) (later : ν) :
    Policy.fail.GoesOn second later fun _ both => both = later where
  in_range _ _ _ h := by cases h
  decides _ _ _ _ _ h := by cases h
  gives_up _ _ _ _ hboth _ := by
    subst hboth
    exact ⟨rfl, rfl⟩

/-! ## Steps that can be taken up again -/

namespace Naming

variable {α β : Type}

/-- A step for each policy. -/
abbrev Deliberation (α : Type) : Type 1 := (μ : Type) → Policy μ → Step (Naming × μ) α

/-- The namings are related, and so is what the policies remember. -/
def Beside {μ ν : Type} (R : Naming → Naming → Prop) (rel : μ → ν → Prop) (s : Naming × μ)
    (s' : Naming × ν) : Prop := R s.1 s'.1 ∧ rel s.2 s'.2

/-- The states name alike, and the policy remembers the same. -/
abbrev Peers {μ : Type} : Naming × μ → Naming × μ → Prop :=
  Beside Alike fun memory memory' => memory' = memory

/-- The states name alike, and what the policies remember is related. -/
abbrev Abreast {μ ν : Type} (joint : μ → ν → Prop) : Naming × μ → Naming × ν → Prop :=
  Beside Alike joint

theorem parallel_onFirst {μ ν : Type} {R : Naming → Naming → Prop} {rel : μ → ν → Prop}
    {x : Step Naming α} (hx : Step.Respects R x) :
    Step.Parallel (Beside R rel) x.onFirst x.onFirst := by
  intro s s' h
  obtain ⟨hanswer, hnaming⟩ := hx _ _ h.1
  exact ⟨hanswer, hnaming, h.2⟩

/-- From both states the step gives the same and names alike. If it gives a result, then the
policy remembers the same. -/
structure Converges {μ : Type} (x : Step (Naming × μ) α) (s s' : Naming × μ) : Prop where
  answer : (x.exec s').1 = (x.exec s).1
  naming : (x.exec s).2.1.Alike (x.exec s').2.1
  memory : ∀ a, (x.exec s).1 = .ok a → (x.exec s').2.2 = (x.exec s).2.2

theorem Converges.bind {μ : Type} {x : Step (Naming × μ) α} {f : α → Step (Naming × μ) β}
    {s s' : Naming × μ} (hx : Converges x s s') (hf : ∀ a, Step.Respects Peers (f a)) :
    Converges (x >>= f) s s' := by
  obtain ⟨hanswer, hnaming, hmemory⟩ := hx
  rcases hs : x.exec s with ⟨answer, s₁⟩
  rcases hs' : x.exec s' with ⟨answer', s₁'⟩
  rw [hs, hs'] at hanswer hnaming hmemory
  obtain rfl : answer' = answer := hanswer
  rcases answer' with problem | a
  · constructor <;> rw [Step.exec_bind, Step.exec_bind, hs, hs']
    · exact hnaming
    · intro _ h
      cases h
  · obtain ⟨hanswer', hnaming', hmemory'⟩ := hf a s₁ s₁' ⟨hnaming, hmemory a rfl⟩
    constructor <;> rw [Step.exec_bind, Step.exec_bind, hs, hs']
    · exact hanswer'
    · exact hnaming'
    · intro _ _
      exact hmemory'

/-- Steps that give the same result can be put before. -/
theorem Converges.after {μ : Type} {x : Step (Naming × μ) α} {f : α → Step (Naming × μ) β}
    {s s' s₁ s₁' : Naming × μ} {a : α} (h : Converges (f a) s₁ s₁')
    (hs : x.exec s = (.ok a, s₁)) (hs' : x.exec s' = (.ok a, s₁')) :
    Converges (x >>= f) s s' := by
  constructor <;> rw [Step.exec_bind, Step.exec_bind, hs, hs']
  · exact h.answer
  · exact h.naming
  · exact h.memory

/-- What a step must do for runs to be taken up again. It keeps all that is named, whether
it fails or not, and does not look at counts and reports. Done once, it is done again without
a question as long as its names are kept. A policy that decides for two takes it as far as
the first of them. And if it fails with the first, then the second one comes from the state
that is left to the same end as that policy from the start. -/
structure Resumable (x : Deliberation α) : Prop where
  retains : ∀ {μ : Type} (policy : Policy μ) (s : Naming × μ),
    s.1.Retains ((x μ policy).exec s).2.1
  respects : ∀ {μ : Type} (policy : Policy μ), Step.Respects Peers (x μ policy)
  again : ∀ {μ : Type} (policy : Policy μ) (s : Naming × μ) a s₁,
    (x μ policy).exec s = (.ok a, s₁) → ∀ n, s₁.1.Retains n →
      ∀ {ν : Type} (policy' : Policy ν) (memory : ν), ∃ n',
        (x ν policy').exec (n, memory) = (.ok a, n', memory) ∧ n.Alike n'
  goes_on : ∀ {μ ν : Type} {first : Policy μ} {second : Policy ν} {later : ν}
    {joint : μ → ν → Prop}, first.GoesOn second later joint → ∀ s s', Abreast joint s s' →
      ∀ a s₁, (x μ first).exec s = (.ok a, s₁) → ∃ s₁',
        (x ν second).exec s' = (.ok a, s₁') ∧ Abreast joint s₁ s₁'
  resumes : ∀ {μ ν : Type} {first : Policy μ} {second : Policy ν} {later : ν}
    {joint : μ → ν → Prop}, first.GoesOn second later joint → ∀ s s', Abreast joint s s' →
      ∀ problem s₁, (x μ first).exec s = (.error problem, s₁) → ∀ n, s₁.1.Alike n →
        Converges (x ν second) s' (n, later)

namespace Resumable

theorem pure (a : α) : Resumable fun _ _ => Pure.pure a where
  retains _ _ := .refl _
  respects _ := .pure a
  again _ _ _ _ h n _ _ _ _ := by
    cases h
    exact ⟨n, rfl, .refl n⟩
  goes_on _ _ _ habreast _ _ h := by
    cases h
    exact ⟨_, rfl, habreast⟩
  resumes _ _ _ _ _ _ h := by cases h

theorem bind {x : Deliberation α} {f : α → Deliberation β} (hx : Resumable x)
    (hf : ∀ a, Resumable (f a)) :
    Resumable fun μ policy => x μ policy >>= fun a => f a μ policy where
  retains policy s := by
    have hkept := hx.retains policy s
    rw [Step.exec_bind]
    rcases hxs : (x _ policy).exec s with ⟨_ | a, s₁⟩
    · rw [hxs] at hkept
      exact hkept
    · rw [hxs] at hkept
      exact hkept.trans ((hf a).retains policy s₁)
  respects policy := (hx.respects policy).bind fun a => (hf a).respects policy
  again policy s b s₂ h n hn _ policy' memory := by
    obtain ⟨a, s₁, hxs, hfs⟩ := Step.exec_bind_eq_ok.1 h
    have hkept := (hf a).retains policy s₁
    rw [hfs] at hkept
    obtain ⟨n₁, hxn, hn₁⟩ := hx.again policy s a s₁ hxs n (hkept.trans hn) policy' memory
    obtain ⟨n₂, hfn, hn₂⟩ :=
      (hf a).again policy s₁ b s₂ hfs n₁ (hn.trans hn₁.retains) policy' memory
    exact ⟨n₂, Step.exec_bind_eq_ok.2 ⟨a, _, hxn, hfn⟩, hn₁.trans hn₂⟩
  goes_on hgo s s' habreast b s₂ h := by
    obtain ⟨a, s₁, hxs, hfs⟩ := Step.exec_bind_eq_ok.1 h
    obtain ⟨s₁', hxs', habreast₁⟩ := hx.goes_on hgo s s' habreast a s₁ hxs
    obtain ⟨s₂', hfs', habreast₂⟩ := (hf a).goes_on hgo s₁ s₁' habreast₁ b s₂ hfs
    exact ⟨s₂', Step.exec_bind_eq_ok.2 ⟨a, _, hxs', hfs'⟩, habreast₂⟩
  resumes {_ _ first second later _} hgo s s' habreast problem s₂ h n hn := by
    rw [Step.exec_bind] at h
    rcases hxs : (x _ first).exec s with ⟨problem₁ | a, s₁⟩
    · rw [hxs] at h
      cases h
      have hsame := hx.resumes hgo s s' habreast problem _ hxs n hn
      exact hsame.bind fun a => (hf a).respects second
    · -- what was done before the failure is found again, so both stand before the same step
      rw [hxs] at h
      obtain ⟨s₁', hxs', habreast₁⟩ := hx.goes_on hgo s s' habreast a s₁ hxs
      have hfs : (f a _ first).exec s₁ = (.error problem, s₂) := h
      have hkept := (hf a).retains first s₁
      rw [hfs] at hkept
      obtain ⟨n₁, hxn, hn₁⟩ := hx.again first s a s₁ hxs n (hkept.trans hn.retains) second later
      have hrest := (hf a).resumes hgo s₁ s₁' habreast₁ problem s₂ hfs n₁ (hn.trans hn₁)
      exact Converges.after (f := fun a => f a _ second) hrest hxs' hxn

theorem mapM {ι : Type} {f : ι → Deliberation α} {is : List ι} (h : ∀ i ∈ is, Resumable (f i)) :
    Resumable fun μ policy => is.mapM fun i => f i μ policy := by
  induction is with
  | nil => exact .pure []
  | cons i is ih =>
    simp only [List.mapM_cons]
    have htail := ih fun j hj => h j (List.mem_cons_of_mem _ hj)
    exact (h i List.mem_cons_self).bind fun a => htail.bind fun as => .pure (a :: as)

/-- A step on the naming alone, if all that fails in it changes nothing. -/
theorem onFirst {x : Step Naming α} (hretains : ∀ n : Naming, n.Retains (x.exec n).2)
    (hrespects : Step.Respects Alike x)
    (hagain : ∀ n a (n₁ : Naming), x.exec n = (.ok a, n₁) → ∀ n', n₁.Retains n' →
      ∃ n'', x.exec n' = (.ok a, n'') ∧ n'.Alike n'')
    (hfail : ∀ n problem (n₁ : Naming), x.exec n = (.error problem, n₁) → n.Alike n₁) :
    Resumable fun _ _ => x.onFirst where
  retains _ s := hretains s.1
  respects _ := parallel_onFirst hrespects
  again _ s a s₁ h n hn _ _ memory := by
    rcases hx : x.exec s.1 with ⟨answer, n₁⟩
    rw [Step.exec_onFirst, hx] at h
    cases h
    obtain ⟨n', hx', hn'⟩ := hagain _ _ _ hx n hn
    exact ⟨n', by rw [Step.exec_onFirst, hx'], hn'⟩
  goes_on _ s s' habreast a s₁ h := by
    rcases hx : x.exec s.1 with ⟨answer, n₁⟩
    rw [Step.exec_onFirst, hx] at h
    cases h
    obtain ⟨hanswer, hnaming⟩ := hrespects _ _ habreast.1
    rw [hx] at hanswer hnaming
    exact ⟨_, Prod.ext hanswer rfl, hnaming, habreast.2⟩
  resumes _ s s' habreast problem s₁ h n hn := by
    rcases hx : x.exec s.1 with ⟨answer, n₁⟩
    rw [Step.exec_onFirst, hx] at h
    cases h
    have hstart := (habreast.1.symm.trans (hfail _ _ _ hx)).trans hn
    obtain ⟨hanswer, hnaming⟩ := hrespects _ _ hstart
    refine ⟨hanswer, hnaming, ?_⟩
    intro a ha
    rw [Step.exec_onFirst, (hrespects _ _ habreast.1).1, hx] at ha
    cases ha

/-- A change that names nothing. -/
theorem modify {f : Naming → Naming} (hresolved : ∀ n, (f n).resolved = n.resolved)
    (hallocator : ∀ n, (f n).allocator = n.allocator)
    (hdecided : ∀ n, (f n).tally.decided = n.tally.decided) :
    Resumable fun _ _ => (modify f : Step Naming Unit).onFirst := by
  have halike : ∀ n : Naming, n.Alike (f n) := fun n => ⟨hresolved n, hallocator n, hdecided n⟩
  refine onFirst (fun n => (halike n).retains) ?respects ?again ?fail
  case respects =>
    apply Step.Parallel.modify
    intro n n' h
    exact ((halike n).symm.trans h).trans (halike n')
  case again =>
    intro n _ n₁ h n' _
    cases h
    exact ⟨_, rfl, halike n'⟩
  case fail =>
    intro n problem n₁ h
    cases h

/-- A symbol that has a number gets it again. -/
theorem allocate (symbol : Symbol) (category : Category) :
    Resumable fun _ _ => (Naming.allocate symbol category).onFirst := by
  refine onFirst ?retains (respects_allocate blind_alike symbol category) ?again ?fail
  case retains =>
    intro n
    rw [exec_allocate]
    rcases ha : n.allocator.allocate symbol category with problem | ⟨name, a⟩
    · exact .refl n
    · exact ⟨fun _ _ h => h, (Allocator.allocate_eq_ok ha).1, fun _ h => h.allocate ha⟩
  case again =>
    intro n name n₁ h n' hkept
    rw [exec_allocate] at h ⊢
    rcases ha : n.allocator.allocate symbol category with problem | ⟨name', a⟩
    · rw [ha] at h
      cases h
    · rw [ha] at h
      cases h
      obtain ⟨_, k, hk, rfl⟩ := Allocator.allocate_eq_ok ha
      have hk' := hkept.numbers _ _ hk
      refine ⟨n', ?_, .refl n'⟩
      unfold Allocator.allocate
      rw [hk']
      simp only [if_true]
  case fail =>
    intro n problem n₁ h
    rw [exec_allocate] at h
    rcases ha : n.allocator.allocate symbol category with problem | ⟨name', a⟩
    · rw [ha] at h
      cases h
      exact .refl n
    · rw [ha] at h
      cases h

end Resumable

/-! ## Methods -/

section Methods

variable {μ : Type} {l : Lineage} {policy : Policy μ} {c : ClassId} {m : MethodId}

/-- What is left to do once a conflict was found. -/
def finish (policy : Policy μ) (pending : Pending) : Step (Naming × μ) String := do
  let place ← consult policy pending.conflict
  modify fun (n, memory) =>
    ({ n with tally := { n.tally with decided := n.tally.decided + 1 } }, memory)
  (complete pending place).onFirst

/-- What is left to do with what the resolver found. -/
def proceed (policy : Policy μ) : Resolution → Step (Naming × μ) String
  | .settled name => pure name
  | .pending pending => finish policy pending

theorem resolve_eq (l : Lineage) (policy : Policy μ) (c : ClassId) (m : MethodId) :
    resolve l policy c m = (begin l c m).onFirst >>= proceed policy := rfl

/-- All that is left to do is to take note of the decision and to name the family. -/
theorem exec_finish (policy : Policy μ) (pending : Pending) (n : Naming) (memory : μ) :
    (finish policy pending).exec (n, memory) =
      match (policy.decide pending.conflict memory).answer with
      | .error problem =>
        (.error problem,
          { n with log := n.log ++ (policy.decide pending.conflict memory).notices },
          (policy.decide pending.conflict memory).memory)
      | .ok place =>
        ((complete pending place).onFirst).exec
          (n.decidedWith (n.log ++ (policy.decide pending.conflict memory).notices),
            (policy.decide pending.conflict memory).memory) := by
  unfold finish consult
  simp only [Step.exec_bind, Step.exec_get, Step.exec_set]
  rcases (policy.decide pending.conflict memory).answer with problem | place
  · rfl
  · rfl

theorem exec_finish_memory (policy : Policy μ) (pending : Pending) (n : Naming) (memory : μ) :
    ((finish policy pending).exec (n, memory)).2.2 =
      (policy.decide pending.conflict memory).memory := by
  rw [exec_finish]
  rcases (policy.decide pending.conflict memory).answer with problem | place
  · rfl
  · rfl

/-- Two policies that answer alike come to the same. -/
theorem exec_finish_congr {ν : Type} {first : Policy μ} {second : Policy ν} (pending : Pending)
    {n n' : Naming} {memory : μ} {memory' : ν} (hn : n.Alike n')
    (hanswer : (second.decide pending.conflict memory').answer =
      (first.decide pending.conflict memory).answer) :
    ((finish second pending).exec (n', memory')).1 =
        ((finish first pending).exec (n, memory)).1 ∧
      ((finish first pending).exec (n, memory)).2.1.Alike
        ((finish second pending).exec (n', memory')).2.1 := by
  rw [exec_finish, exec_finish, hanswer]
  rcases (first.decide pending.conflict memory).answer with problem | place
  · exact ⟨rfl, hn.resolved, hn.allocator, hn.decided⟩
  · have hnoted : ∀ log log', (n.decidedWith log).Alike (n'.decidedWith log') := by
      intro log log'
      refine ⟨hn.resolved, hn.allocator, ?_⟩
      show n'.tally.decided + 1 = n.tally.decided + 1
      rw [hn.decided]
    exact respects_complete blind_alike pending place _ _ (hnoted _ _)

/-- A decision in range is a name for the family. -/
theorem finish_fails {pending : Pending} {n : Naming} {memory : μ} {problem : Problem}
    {s₁ : Naming × μ}
    (hrange : ∀ place, (policy.decide pending.conflict memory).answer = .ok place →
      place < pending.conflict.candidates.length)
    (h : (finish policy pending).exec (n, memory) = (.error problem, s₁)) :
    (policy.decide pending.conflict memory).answer = .error problem := by
  rw [exec_finish] at h
  rcases ha : (policy.decide pending.conflict memory).answer with problem' | place
  · rw [ha] at h
    cases h
    rfl
  · rw [ha] at h
    have hplace := List.getElem?_eq_getElem (hrange place ha)
    unfold complete at h
    simp only [hplace] at h
    cases h

/-- Where a decision was made, a policy that goes on for the one who made it makes it too. -/
theorem finish_goes_on {ν : Type} {first : Policy μ} {second : Policy ν} {later : ν}
    {joint : μ → ν → Prop} (hgo : first.GoesOn second later joint) {pending : Pending}
    {n n' : Naming} {memory : μ} {both : ν} (hn : n.Alike n') (hjoint : joint memory both)
    {name : String} {s₁ : Naming × μ}
    (h : (finish first pending).exec (n, memory) = (.ok name, s₁)) :
    ∃ s₁', (finish second pending).exec (n', both) = (.ok name, s₁') ∧ Abreast joint s₁ s₁' := by
  have hdecided : ∃ place, (first.decide pending.conflict memory).answer = .ok place := by
    rw [exec_finish] at h
    rcases hd : (first.decide pending.conflict memory).answer with problem | place
    · rw [hd] at h
      cases h
    · exact ⟨place, rfl⟩
  obtain ⟨place, hplace⟩ := hdecided
  obtain ⟨hplace', hjoint'⟩ := hgo.decides _ _ _ _ hjoint hplace
  obtain ⟨hname, hnaming⟩ := exec_finish_congr pending hn (hplace'.trans hplace.symm)
  rw [h] at hname hnaming
  refine ⟨((finish second pending).exec (n', both)).2, Prod.ext hname rfl, hnaming, ?_⟩
  have hmemory := exec_finish_memory first pending n memory
  rw [h] at hmemory
  rw [exec_finish_memory, hmemory]
  exact hjoint'

/-- Where a decision was refused, a policy that goes on decides as it does from the start. -/
theorem finish_resumes {ν : Type} {first : Policy μ} {second : Policy ν} {later : ν}
    {joint : μ → ν → Prop} (hgo : first.GoesOn second later joint) {pending : Pending}
    {n n' k : Naming} {memory : μ} {both : ν} (hn : n'.Alike k) (hjoint : joint memory both)
    {problem : Problem} {s₁ : Naming × μ}
    (h : (finish first pending).exec (n, memory) = (.error problem, s₁)) :
    Converges (finish second pending) (n', both) (k, later) := by
  have hgave := finish_fails (fun place hplace => hgo.in_range _ _ place hplace) h
  obtain ⟨hgoes, hmemory⟩ := hgo.gives_up _ _ _ _ hjoint hgave
  obtain ⟨hname, hnamed⟩ := exec_finish_congr pending hn hgoes
  refine ⟨hname, hnamed, ?_⟩
  intro _ _
  rw [exec_finish_memory, exec_finish_memory, hmemory]

/-- A call that fails changes nothing but counts and reports, if it was not for an answer out
of range. -/
theorem call_alike_of_error {n n' : Naming} {memory memory' : μ} {problem : Problem}
    (hrange : ∀ place, (policy.decide (l.conflict c m) memory).answer = .ok place →
      place < (l.candidates c m).length)
    (h : Call l policy c m n memory (.error problem) n' memory') : n.Alike n' := by
  cases h with
  | settled hu hc hs =>
    cases hs with
    | refused => exact .refl n
  | undecided => exact ⟨rfl, rfl, rfl⟩
  | misplaced hu hc hd hp =>
    have hlt := hrange _ hd
    have hle := List.getElem?_eq_none_iff.1 hp
    omega

theorem resumable_resolve (l : Lineage) (c : ClassId) (m : MethodId) :
    Resumable fun _ policy => resolve l policy c m where
  retains policy s := (call_of_resolve l policy c m s.1 s.2).retains
  respects policy := by
    rw [resolve_eq]
    refine (parallel_onFirst (respects_begin blind_alike)).bind ?_
    rintro (name | pending)
    · exact .pure name
    · rintro ⟨n, memory⟩ ⟨n', _⟩ ⟨hn, rfl⟩
      obtain ⟨hanswer, hnaming⟩ := exec_finish_congr pending hn rfl
      exact ⟨hanswer, hnaming,
        (exec_finish_memory policy pending n' _).trans (exec_finish_memory policy pending n _).symm⟩
  again policy s name s₁ h n hn _ policy' memory := by
    have hcall := call_of_resolve l policy c m s.1 s.2
    rw [h] at hcall
    exact ⟨n, exec_resolve_known policy' c memory (hn.resolved _ _ hcall.named), .refl n⟩
  goes_on {_ _ first second later joint} hgo s s' habreast name s₁ h := by
    obtain ⟨n, memory⟩ := s
    obtain ⟨n', both⟩ := s'
    obtain ⟨hanswer, hnaming⟩ :=
      respects_begin blind_alike (l := l) (c := c) (m := m) n n' habreast.1
    rw [resolve_eq, Step.exec_bind, Step.exec_onFirst] at h ⊢
    rcases hb : (begin l c m).exec n with ⟨problem | r, n₁⟩
    · rw [hb] at h
      cases h
    rcases hb' : (begin l c m).exec n' with ⟨answer', n₁'⟩
    rw [hb, hb'] at hanswer hnaming
    obtain rfl : answer' = .ok r := hanswer
    rw [hb] at h
    rcases r with name | pending
    · cases h
      exact ⟨_, rfl, hnaming, habreast.2⟩
    · exact finish_goes_on hgo hnaming habreast.2 h
  resumes {_ _ first second later joint} hgo s s' habreast problem s₁ h k hk := by
    obtain ⟨n, memory⟩ := s
    obtain ⟨n', both⟩ := s'
    -- nothing was named by the call that failed
    have hcall := call_of_resolve l first c m n memory
    rw [h] at hcall
    have hstart : n'.Alike k :=
      (habreast.1.symm.trans (call_alike_of_error (hgo.in_range _ _) hcall)).trans hk
    obtain ⟨hanswer, hnaming⟩ :=
      respects_begin blind_alike (l := l) (c := c) (m := m) n n' habreast.1
    obtain ⟨hanswer', hnaming'⟩ := respects_begin blind_alike (l := l) (c := c) (m := m) n' k hstart
    rcases hb : (begin l c m).exec n with ⟨answer, n₁⟩
    rcases hb' : (begin l c m).exec n' with ⟨answer', n₁'⟩
    rcases hbk : (begin l c m).exec k with ⟨answer'', k₁⟩
    rw [hb, hb'] at hanswer hnaming
    rw [hb', hbk] at hanswer' hnaming'
    obtain rfl : answer' = answer := hanswer
    obtain rfl : answer'' = answer' := hanswer'
    have hfirst : ((begin l c m).onFirst : Step (Naming × _) _).exec (n', both) =
        (answer'', n₁', both) := by rw [Step.exec_onFirst, hb']
    have hsecond : ((begin l c m).onFirst : Step (Naming × _) _).exec (k, later) =
        (answer'', k₁, later) := by rw [Step.exec_onFirst, hbk]
    rw [resolve_eq, Step.exec_bind, Step.exec_onFirst, hb] at h
    simp only [resolve_eq]
    rcases answer'' with problem' | name | pending
    · constructor <;> rw [Step.exec_bind, Step.exec_bind, hfirst, hsecond]
      · exact hnaming'
      · intro _ hok
        cases hok
    · cases h
    · have hsame : Converges (finish second pending) (n₁', both) (k₁, later) :=
        finish_resumes hgo hnaming' habreast.2 h
      exact Converges.after (f := proceed second) (a := .pending pending) hsame hfirst hsecond

end Methods

/-! ## Steps on the naming alone -/

/-- A step on the naming alone that can be taken up again. -/
def Repeatable (x : Step Naming α) : Prop := Resumable fun _ _ => x.onFirst

namespace Repeatable

theorem pure (a : α) : Repeatable (Pure.pure a) := Resumable.pure a

theorem bind {x : Step Naming α} {f : α → Step Naming β} (hx : Repeatable x)
    (hf : ∀ a, Repeatable (f a)) : Repeatable (x >>= f) := by
  unfold Repeatable
  simp only [Step.onFirst_bind]
  exact Resumable.bind hx hf

end Repeatable

theorem repeatable_report (notice : Notice) : Repeatable (report notice) :=
  .modify (fun _ => rfl) (fun _ => rfl) fun _ => rfl

theorem repeatable_allocate (symbol : Symbol) (category : Category) :
    Repeatable (allocate symbol category) := .allocate symbol category

theorem repeatable_replace (stale : String) (symbol : Symbol) (category : Category) :
    Repeatable (replace stale symbol category) :=
  (repeatable_allocate symbol category).bind fun _ => (repeatable_report _).bind fun _ => .pure _

end Naming

end StableNames
