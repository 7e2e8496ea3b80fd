-- What one call of the resolver can do. A name that is known is given
-- back; else the family gets a name from the allocator, from its only
-- candidate or from the policy; or else the call fails, and no method has
-- a name that it did not have before.
import StableNames.Naming.Resolver

namespace StableNames

namespace Lineage

/-- What a policy is shown of a method of `c`. -/
def conflict (l : Lineage) (c : ClassId) (m : MethodId) : Conflict :=
  ⟨(⟨l.graph.className c, (l.graph.method m).name, (l.graph.method m).desc⟩ : Member).label,
    l.candidates c m⟩

end Lineage

namespace Naming

variable {μ : Type} {l : Lineage} {policy : Policy μ} {c : ClassId} {m : MethodId}
  {n : Naming} {memory : μ}

/-- The state after some methods got a name. -/
def withNames (n : Naming) (methods : List MethodId) (name : String) : Naming :=
  { n with resolved := n.resolved.insertAll methods name }

/-- None of the methods has a name. -/
def Unnamed (n : Naming) (methods : List MethodId) : Prop :=
  ∀ k ∈ methods, n.resolved.get? k = none

/-! ## The steps of the resolver -/

theorem exec_allocate (symbol : Symbol) (category : Category) (n : Naming) :
    (allocate symbol category).exec n =
      match n.allocator.allocate symbol category with
      | .error problem => (.error problem, n)
      | .ok (name, allocator) => (.ok name, { n with allocator }) := by
  unfold allocate
  rw [Step.exec_bind, Step.exec_get]
  simp only
  rcases n.allocator.allocate symbol category with _ | ⟨name, a⟩ <;> rfl

theorem exec_replace (stale : String) (symbol : Symbol) (category : Category) (n : Naming) :
    (replace stale symbol category).exec n =
      match n.allocator.allocate symbol category with
      | .error problem => (.error problem, n)
      | .ok (name, allocator) =>
        (.ok name, { n with allocator, log := n.log ++ [.info s!"{stale} is now {name}"] }) := by
  unfold replace
  rw [Step.exec_bind, exec_allocate]
  rcases n.allocator.allocate symbol category with _ | ⟨name, a⟩ <;> rfl

@[simp] theorem exec_remember (family : List MethodId) (name : String) (n : Naming) :
    (remember m family name).exec n = (.ok (), n.withNames (m :: family) name) := rfl

/-- What settling a family without a conflict comes to. -/
inductive Settling (m : MethodId) (family : List MethodId) (n : Naming) :
    Option Candidate → Except Problem String → Naming → Prop
  | fresh {name : String} {a : Allocator}
      (ha : n.allocator.allocate (.ofMethod m) .ofMethod = .ok (name, a)) :
      Settling m family n none (.ok name) ({ n with allocator := a }.withNames (m :: family) name)
  | adopted {candidate : Candidate} (ho : Category.ofMethod.owns candidate.name = true) :
      Settling m family n (some candidate) (.ok candidate.name)
        (n.withNames (m :: family) candidate.name)
  | stale {candidate : Candidate} {name : String} {a : Allocator} {log : List Notice}
      (ho : Category.ofMethod.owns candidate.name = false)
      (ha : n.allocator.allocate (.ofMethod m) .ofMethod = .ok (name, a)) :
      Settling m family n (some candidate) (.ok name)
        ({ n with allocator := a, log, renamed := n.renamed + 1 }.withNames (m :: family) name)
  | refused {candidate? : Option Candidate} {problem : Problem}
      (ho : ∀ candidate ∈ candidate?, Category.ofMethod.owns candidate.name = false)
      (ha : n.allocator.allocate (.ofMethod m) .ofMethod = .error problem) :
      Settling m family n candidate? (.error problem) n

theorem settling_of_settle (family : List MethodId) (candidate? : Option Candidate) :
    Settling m family n candidate? ((settle m family candidate?).exec n).1
      ((settle m family candidate?).exec n).2 := by
  unfold settle
  rcases candidate? with _ | candidate
  · simp only [Step.exec_bind, exec_allocate]
    rcases ha : n.allocator.allocate (.ofMethod m) .ofMethod with _ | ⟨name, a⟩
    · exact .refused (by simp) ha
    · exact .fresh ha
  · rcases ho : Category.ofMethod.owns candidate.name with _ | _
    · simp only [Step.exec_bind, exec_replace, ho, Bool.false_eq_true, if_false]
      rcases ha : n.allocator.allocate (.ofMethod m) .ofMethod with _ | ⟨name, a⟩
      · exact .refused (by simpa using ho) ha
      · exact .stale ho ha
    · simp only [Step.exec_bind, ho, if_true, Step.exec_pure]
      exact .adopted ho

/-! ## The calls -/

/-- The state once a policy was asked and gave a place. -/
def decidedWith (n : Naming) (log : List Notice) : Naming :=
  { n with log, tally := { n.tally with decided := n.tally.decided + 1 } }

/-- What a call for a method of `c` comes to. -/
inductive Call (l : Lineage) (policy : Policy μ) (c : ClassId) (m : MethodId) (n : Naming)
    (memory : μ) : Except Problem String → Naming → μ → Prop
  | known {name : String} (hm : n.resolved.get? m = some name) :
      Call l policy c m n memory (.ok name) n memory
  | inherited {name : String} {k : MethodId} (hm : n.resolved.get? m = none)
      (hf : k ∈ l.graph.family c m) (hk : n.resolved.get? k = some name) :
      Call l policy c m n memory (.ok name) (n.withNames [m] name) memory
  | settled {candidate? : Option Candidate} {answer : Except Problem String} {n' : Naming}
      (hu : n.Unnamed (m :: l.graph.family c m)) (hc : l.candidates c m = candidate?.toList)
      (hs : Settling m (l.graph.family c m) n candidate? answer n') :
      Call l policy c m n memory answer n' memory
  | undecided {problem : Problem} {log : List Notice}
      (hu : n.Unnamed (m :: l.graph.family c m)) (hc : 2 ≤ (l.candidates c m).length)
      (hd : (policy.decide (l.conflict c m) memory).answer = .error problem) :
      Call l policy c m n memory (.error problem) { n with log }
        (policy.decide (l.conflict c m) memory).memory
  | misplaced {place : Nat} {log : List Notice}
      (hu : n.Unnamed (m :: l.graph.family c m)) (hc : 2 ≤ (l.candidates c m).length)
      (hd : (policy.decide (l.conflict c m) memory).answer = .ok place)
      (hp : (l.candidates c m)[place]? = none) :
      Call l policy c m n memory (.error (.unresolved (l.conflict c m).symbol))
        (n.decidedWith log) (policy.decide (l.conflict c m) memory).memory
  | decided {place : Nat} {candidate : Candidate} {log : List Notice}
      (hu : n.Unnamed (m :: l.graph.family c m)) (hc : 2 ≤ (l.candidates c m).length)
      (hd : (policy.decide (l.conflict c m) memory).answer = .ok place)
      (hp : (l.candidates c m)[place]? = some candidate) :
      Call l policy c m n memory (.ok candidate.name)
        ((n.withNames (m :: l.graph.family c m) candidate.name).decidedWith log)
        (policy.decide (l.conflict c m) memory).memory

theorem exec_begin_known {name : String} (hm : n.resolved.get? m = some name) :
    (begin l c m).exec n = (.ok (.settled name), n) := by
  unfold begin
  simp only [Step.exec_bind, Step.exec_get, hm, Step.exec_pure]

theorem exec_begin_inherited {name : String} (hm : n.resolved.get? m = none)
    (hf : (l.graph.family c m).findSome? n.resolved.get? = some name) :
    (begin l c m).exec n = (.ok (.settled name), n.withNames [m] name) := by
  unfold begin
  simp only [Step.exec_bind, Step.exec_get, hm, hf, exec_remember, Step.exec_pure]

/-- A family without a name is settled, unless it has several candidates. -/
theorem exec_begin_unnamed (hm : n.resolved.get? m = none)
    (hf : (l.graph.family c m).findSome? n.resolved.get? = none) :
    (begin l c m).exec n =
      match l.candidates c m with
      | [] => (Resolution.settled <$> settle m (l.graph.family c m) none).exec n
      | [candidate] =>
        (Resolution.settled <$> settle m (l.graph.family c m) (some candidate)).exec n
      | candidates =>
        (.ok (.pending ⟨l.conflict c m, m, l.graph.family c m⟩),
          { n with log := n.log ++ [.warning <|
            s!"[CONFLICT] {(l.conflict c m).symbol} matched {candidates.length} names: " ++
              ", ".intercalate (l.conflict c m).names] }) := by
  unfold begin
  simp only [Step.exec_bind, Step.exec_get, hm, hf]
  rcases hc : l.candidates c m with _ | ⟨x, _ | ⟨y, rest⟩⟩
  · rfl
  · rfl
  · unfold Lineage.conflict
    rw [hc]
    rfl

theorem unnamed_of_findSome? {family : List MethodId} (hm : n.resolved.get? m = none)
    (hf : family.findSome? n.resolved.get? = none) : n.Unnamed (m :: family) := by
  intro k hk
  rcases List.mem_cons.1 hk with rfl | hk
  · exact hm
  · exact List.findSome?_eq_none_iff.1 hf k hk

/-- The policy is asked once, and its answer names the family if it is the place of a
candidate. -/
theorem call_of_conflict (hu : n.Unnamed (m :: l.graph.family c m))
    (hc : 2 ≤ (l.candidates c m).length) {log : List Notice}
    (hb : (begin l c m).exec n =
      (.ok (.pending ⟨l.conflict c m, m, l.graph.family c m⟩), { n with log })) :
    Call l policy c m n memory ((resolve l policy c m).exec (n, memory)).1
      ((resolve l policy c m).exec (n, memory)).2.1
      ((resolve l policy c m).exec (n, memory)).2.2 := by
  unfold resolve
  simp only [Step.exec_bind, Step.exec_onFirst, hb]
  unfold consult
  simp only [Step.exec_bind, Step.exec_get, Step.exec_set]
  rcases hd : (policy.decide (l.conflict c m) memory).answer with problem | place
  · exact .undecided hu hc hd
  · simp only [Step.exec_pure, Step.exec_modify, Step.exec_onFirst]
    unfold complete
    rcases hp : (l.candidates c m)[place]? with _ | candidate
    · simp only [Lineage.conflict, hp, Step.exec_throw]
      exact .misplaced hu hc hd hp
    · simp only [Lineage.conflict, hp, Step.exec_bind, exec_remember, report, Step.exec_modify,
        Step.exec_pure]
      exact .decided hu hc hd hp

theorem call_of_settle {candidate? : Option Candidate}
    (hu : n.Unnamed (m :: l.graph.family c m)) (hc : l.candidates c m = candidate?.toList)
    (hb : (begin l c m).exec n =
      (Resolution.settled <$> settle m (l.graph.family c m) candidate?).exec n) :
    Call l policy c m n memory ((resolve l policy c m).exec (n, memory)).1
      ((resolve l policy c m).exec (n, memory)).2.1
      ((resolve l policy c m).exec (n, memory)).2.2 := by
  have hs := settling_of_settle (m := m) (n := n) (l.graph.family c m) candidate?
  unfold resolve
  rw [Step.exec_bind, Step.exec_onFirst, hb, Step.exec_map]
  rcases hx : (settle m (l.graph.family c m) candidate?).exec n with ⟨_ | name, n'⟩
  · rw [hx] at hs
    exact .settled hu hc hs
  · rw [hx] at hs
    exact .settled hu hc hs

theorem call_of_resolve (l : Lineage) (policy : Policy μ) (c : ClassId) (m : MethodId)
    (n : Naming) (memory : μ) :
    Call l policy c m n memory ((resolve l policy c m).exec (n, memory)).1
      ((resolve l policy c m).exec (n, memory)).2.1
      ((resolve l policy c m).exec (n, memory)).2.2 := by
  rcases hm : n.resolved.get? m with _ | name
  · rcases hf : (l.graph.family c m).findSome? n.resolved.get? with _ | name
    · have hu := unnamed_of_findSome? hm hf
      have hb := exec_begin_unnamed hm hf
      rcases hc : l.candidates c m with _ | ⟨x, _ | ⟨y, rest⟩⟩
      · exact @call_of_settle _ _ _ _ _ _ _ none hu hc (by simpa [hc] using hb)
      · exact @call_of_settle _ _ _ _ _ _ _ (some x) hu hc (by simpa [hc] using hb)
      · exact call_of_conflict hu (by simp [hc]) (by simpa [hc] using hb)
    · obtain ⟨k, hk, hname⟩ := List.exists_of_findSome?_eq_some hf
      unfold resolve
      rw [Step.exec_bind, Step.exec_onFirst, exec_begin_inherited hm hf]
      exact .inherited hm hk hname
  · unfold resolve
    rw [Step.exec_bind, Step.exec_onFirst, exec_begin_known hm]
    exact .known hm

/-- While no family has a name, a call with several candidates goes as the policy decides. -/
theorem Call.contested {answer : Except Problem String} {n' : Naming} {memory memory' : μ}
    (h : Call l policy c m n memory answer n' memory') (hnone : n.resolved = ∅)
    (hc : 2 ≤ (l.candidates c m).length) :
    (∀ problem, (policy.decide (l.conflict c m) memory).answer = .error problem →
      answer = .error problem ∧ n'.resolved = ∅) ∧
    ∀ place candidate, (policy.decide (l.conflict c m) memory).answer = .ok place →
      (l.candidates c m)[place]? = some candidate →
      answer = .ok candidate.name ∧ memory' = (policy.decide (l.conflict c m) memory).memory := by
  cases h with
  | known hm =>
    rw [hnone] at hm
    cases hm
  | inherited _ _ hk =>
    rw [hnone] at hk
    cases hk
  | @settled candidate? _ _ _ hone _ =>
    rw [hone] at hc
    cases candidate? <;> simp at hc
  | undecided _ _ hd =>
    rw [hd]
    constructor
    · rintro _ ⟨⟩
      exact ⟨rfl, hnone⟩
    · rintro _ _ ⟨⟩
  | misplaced _ _ hd hp =>
    rw [hd]
    constructor
    · rintro _ ⟨⟩
    · rintro _ _ ⟨⟩ hp'
      rw [hp] at hp'
      cases hp'
  | decided _ _ hd hp =>
    rw [hd]
    constructor
    · rintro _ ⟨⟩
    · rintro _ _ ⟨⟩ hp'
      rw [hp] at hp'
      cases hp'
      exact ⟨rfl, rfl⟩

end Naming

end StableNames
