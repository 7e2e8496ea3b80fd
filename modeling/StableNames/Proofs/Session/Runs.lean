-- Steps that keep what was named. A step of a run says something about its
-- result for all states that may come after it, and so the steps can be
-- put together: what the last state holds is so for all of them. What no
-- call breaks is kept by the whole run, also when it fails.
import StableNames.Proofs.Naming.Growth
import StableNames.Proofs.Session.Steps

namespace StableNames

open Naming

namespace Session

variable {μ α β : Type} {l : Lineage} {policy : Policy μ} {I : Naming → μ → Prop}

/-- The invariant is about the names of methods and what the policy remembers, and no call for
a method of the graph breaks it. -/
structure Kept (l : Lineage) (policy : Policy μ) (I : Naming → μ → Prop) : Prop where
  congr : ∀ {n n' : Naming} {memory : μ}, I n memory → n'.resolved = n.resolved → I n' memory
  call : ∀ {m : MethodId} {n n' : Naming} {memory memory' : μ} {answer : Except Problem String},
    I n memory → m < l.graph.methodCount →
      Call l policy (l.graph.method m).owner m n memory answer n' memory' → I n' memory'

theorem kept_sane (hg : l.graph.Coherent) (hclean : ∀ m < l.graph.methodCount,
    ∀ candidate ∈ l.candidates (l.graph.method m).owner m, CleanName candidate.name) :
    Kept l policy.traced (Sane l.graph) where
  congr := Sane.congr
  call hn hm h := hn.call h (fun hkeys => (hn.uniform hkeys).call hg hkeys hm h) (hclean _ hm)

theorem kept_uniform (hg : l.graph.Coherent) (hkeys : l.graph.KeysDistinct) :
    Kept l policy fun n _ => Uniform l.graph n where
  congr := Uniform.congr
  call hn hm h := hn.call hg hkeys hm h

theorem kept_true : Kept l policy fun _ _ => True where
  congr _ _ := trivial
  call _ _ _ := trivial

/-- The step keeps the invariant and holds all that was held before, also when it fails. When
it succeeds, `P` is so for all states that hold what the one after it holds. -/
def Runs (I : Naming → μ → Prop) (x : Step (Naming × μ) α) (P : Naming → α → Prop) : Prop :=
  ∀ n memory answer n' memory', I n memory → x.exec (n, memory) = (answer, n', memory') →
    I n' memory' ∧ n.Retains n' ∧ ∀ a, answer = .ok a → ∀ N, n'.Retains N → P N a

theorem Runs.pure {P : Naming → α → Prop} {a : α} (h : ∀ N, P N a) :
    Runs I (pure a : Step (Naming × μ) α) P := by
  intro n memory answer n' memory' hn hx
  cases hx
  refine ⟨hn, .refl _, ?_⟩
  intro a' ha N _
  cases ha
  exact h N

theorem Runs.bind {x : Step (Naming × μ) α} {f : α → Step (Naming × μ) β}
    {P : Naming → α → Prop} {Q : Naming → β → Prop} (hx : Runs I x P)
    (hf : ∀ a, Runs I (f a) fun N b => P N a → Q N b) : Runs I (x >>= f) Q := by
  intro n memory answer n' memory' hn hb
  rw [Step.exec_bind] at hb
  rcases hxn : x.exec (n, memory) with ⟨problem | a, n₁, memory₁⟩
  · rw [hxn] at hb
    cases hb
    obtain ⟨hn', hr, _⟩ := hx _ _ _ _ _ hn hxn
    exact ⟨hn', hr, fun _ h => by cases h⟩
  · rw [hxn] at hb
    obtain ⟨hn₁, hr₁, hP⟩ := hx _ _ _ _ _ hn hxn
    obtain ⟨hn', hr', hQ⟩ := hf a _ _ _ _ _ hn₁ hb
    exact ⟨hn', hr₁.trans hr', fun b hb N hN => hQ b hb N hN (hP a rfl N (hr'.trans hN))⟩

theorem Runs.mono {x : Step (Naming × μ) α} {P Q : Naming → α → Prop} (hx : Runs I x P)
    (h : ∀ N a, P N a → Q N a) : Runs I x Q := by
  intro n memory answer n' memory' hn hb
  obtain ⟨hn', hr, hP⟩ := hx n memory answer n' memory' hn hb
  exact ⟨hn', hr, fun a ha N hN => h N a (hP a ha N hN)⟩

theorem Runs.mapM {ι : Type} {f : ι → Step (Naming × μ) α} {f' : Naming → ι → α}
    {P : Naming → ι → Prop} {is : List ι}
    (h : ∀ i ∈ is, Runs I (f i) fun N a => a = f' N i ∧ P N i) :
    Runs I (is.mapM f) fun N as => as = is.map (f' N) ∧ ∀ i ∈ is, P N i := by
  induction is with
  | nil => exact .pure fun N => ⟨rfl, by simp⟩
  | cons i is ih =>
    rw [List.mapM_cons]
    apply (h i List.mem_cons_self).bind
    intro a
    have htail := ih fun j hj => h j (List.mem_cons_of_mem _ hj)
    apply htail.bind
    intro as
    apply Runs.pure
    rintro N ⟨rfl, his⟩ ⟨rfl, hi⟩
    exact ⟨rfl, List.forall_mem_cons.2 ⟨hi, his⟩⟩

/-! ## Steps that name no method -/

/-- The step names no method and keeps all numbers, also when it fails. When it succeeds, `P`
is so for all states that hold what the one after it holds. -/
def Quiet (x : Step Naming α) (P : Naming → α → Prop) : Prop :=
  ∀ n answer n', x.exec n = (answer, n') →
    n'.resolved = n.resolved ∧ n.Retains n' ∧ ∀ a, answer = .ok a → ∀ N, n'.Retains N → P N a

theorem Quiet.pure {P : Naming → α → Prop} {a : α} (h : ∀ N, P N a) :
    Quiet (pure a : Step Naming α) P := by
  intro n answer n' hx
  cases hx
  refine ⟨rfl, .refl _, ?_⟩
  intro a' ha N _
  cases ha
  exact h N

theorem Quiet.bind {x : Step Naming α} {f : α → Step Naming β} {P : Naming → α → Prop}
    {Q : Naming → β → Prop} (hx : Quiet x P)
    (hf : ∀ a, Quiet (f a) fun N b => P N a → Q N b) : Quiet (x >>= f) Q := by
  intro n answer n' hb
  rw [Step.exec_bind] at hb
  rcases hxn : x.exec n with ⟨problem | a, n₁⟩
  · rw [hxn] at hb
    cases hb
    obtain ⟨hresolved, hr, _⟩ := hx _ _ _ hxn
    exact ⟨hresolved, hr, fun _ h => by cases h⟩
  · rw [hxn] at hb
    obtain ⟨hresolved₁, hr₁, hP⟩ := hx _ _ _ hxn
    obtain ⟨hresolved, hr, hQ⟩ := hf a _ _ _ hb
    refine ⟨hresolved.trans hresolved₁, hr₁.trans hr, ?_⟩
    intro b hb N hN
    exact hQ b hb N hN (hP a rfl N (hr.trans hN))

theorem Quiet.mono {x : Step Naming α} {P Q : Naming → α → Prop} (hx : Quiet x P)
    (h : ∀ N a, P N a → Q N a) : Quiet x Q := by
  intro n answer n' hb
  obtain ⟨hresolved, hr, hP⟩ := hx n answer n' hb
  exact ⟨hresolved, hr, fun a ha N hN => h N a (hP a ha N hN)⟩

theorem Quiet.modify {f : Naming → Naming} (hresolved : ∀ n, (f n).resolved = n.resolved)
    (hallocator : ∀ n, (f n).allocator = n.allocator) :
    Quiet (modify f : Step Naming Unit) fun _ _ => True := by
  intro n answer n' hx
  cases hx
  exact ⟨hresolved n, .of_eq (hresolved n) (hallocator n), fun _ _ _ _ => trivial⟩

theorem quiet_allocate (s : Symbol) (category : Category) :
    Quiet (allocate s category) fun N name =>
      ∃ k, N.allocator.numbers.get? s = some (category, k) ∧ name = category.name k := by
  intro n answer n' h
  rw [exec_allocate] at h
  split at h
  · cases h
    exact ⟨rfl, .refl _, fun _ h => by cases h⟩
  · rename_i name a ha
    cases h
    obtain ⟨hkeeps, k, hk, hname⟩ := Allocator.allocate_eq_ok ha
    refine ⟨rfl, ⟨fun _ _ h => h, hkeeps, fun _ ht => ht.allocate ha⟩, ?_⟩
    intro name' hname' N hN
    cases hname'
    exact ⟨k, hN.numbers _ _ hk, hname⟩

theorem quiet_replace (stale : String) (s : Symbol) (category : Category) :
    Quiet (replace stale s category) fun N name =>
      ∃ k, N.allocator.numbers.get? s = some (category, k) ∧ name = category.name k := by
  unfold replace
  apply (quiet_allocate s category).bind
  intro name
  refine Quiet.bind (.modify (fun _ => rfl) (fun _ => rfl)) ?_
  intro _
  exact .pure fun _ _ h => h

/-- A step on the naming alone asks nothing. If it names no method, the invariant is kept. -/
theorem Runs.onFirst {x : Step Naming α} {P : Naming → α → Prop} (h : Quiet x P)
    (hI : Kept l policy I) : Runs I (x.onFirst : Step (Naming × μ) α) P := by
  intro n memory answer n' memory' hn hx
  rw [Step.exec_onFirst] at hx
  rcases hxn : x.exec n with ⟨answer', n₁⟩
  rw [hxn] at hx
  cases hx
  obtain ⟨hresolved, hr, hP⟩ := h n _ _ hxn
  exact ⟨hI.congr hn hresolved, hr, hP⟩

theorem quiet_count (f : Tally → Tally) : Quiet (count f) fun _ _ => True :=
  .modify (fun _ => rfl) (fun _ => rfl)

theorem runs_count (hI : Kept l policy I) (f : Tally → Tally) :
    Runs I ((count f).onFirst : Step (Naming × μ) Unit) fun _ _ => True :=
  .onFirst (quiet_count f) hI

end Session

end StableNames
