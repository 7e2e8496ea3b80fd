-- One name for each family, over any calls of the resolver. The family is
-- the same from each of its members, so a name that is written for all of
-- them is never written again, and a call that fails writes nothing.
import Mathlib.Data.List.Permutation
import StableNames.Proofs.Graph.Families
import StableNames.Proofs.Naming.Resolver

namespace StableNames

/-- A call for a method, seen from its owner, with a policy and what the policy remembers. -/
structure Request where
  μ : Type
  policy : Policy μ
  memory : μ
  method : MethodId

namespace Request

/-- What a call comes to. -/
def exec (r : Request) (l : Lineage) (n : Naming) : Except Problem String × Naming × r.μ :=
  (Naming.resolve l r.policy (l.graph.method r.method).owner r.method).exec (n, r.memory)

/-- The call names its family by what the policy decides. -/
def Decides (r : Request) (l : Lineage) (n : Naming) : Prop :=
  (∃ name, (r.exec l n).1 = .ok name) ∧ (r.exec l n).2.1.tally.decided ≠ n.tally.decided

end Request

namespace Naming

variable {μ : Type} {l : Lineage} {policy : Policy μ} {c : ClassId} {m k : MethodId}
  {n n' : Naming} {memory memory' : μ} {answer : Except Problem String} {name : String}

/-- The state after calls, in order. -/
def after (n : Naming) (l : Lineage) (requests : List Request) : Naming :=
  requests.foldl (fun n r => (r.exec l n).2.1) n

/-- All of the methods have this name. -/
def Named (n : Naming) (methods : List MethodId) (name : String) : Prop :=
  ∀ k ∈ methods, n.resolved.get? k = some name

/-- The family of a method, seen from its owner. -/
def familyOf (g : Graph) (m : MethodId) : List MethodId := g.family (g.method m).owner m

/-- In each family no member has a name, or all have the same. -/
def Uniform (g : Graph) (n : Naming) : Prop :=
  ∀ m < g.methodCount, n.Unnamed (familyOf g m) ∨ ∃ name, n.Named (familyOf g m) name

@[simp] theorem after_append (n : Naming) (l : Lineage) (rs rs' : List Request) :
    n.after l (rs ++ rs') = (n.after l rs).after l rs' := List.foldl_append

@[simp] theorem after_cons (n : Naming) (l : Lineage) (r : Request) (rs : List Request) :
    n.after l (r :: rs) = (r.exec l n).2.1.after l rs := rfl

theorem get?_withNames (n : Naming) (methods : List MethodId) (name : String) (k : MethodId) :
    (n.withNames methods name).resolved.get? k =
      if k ∈ methods then some name else n.resolved.get? k :=
  Assoc.get?_insertAll _ _ _ _

/-! ## One call -/

/-- A failed call changes no name and no number. -/
theorem Call.error_keeps {problem : Problem}
    (h : Call l policy c m n memory (.error problem) n' memory') :
    n'.resolved = n.resolved ∧ n'.renamed = n.renamed ∧ n'.allocator = n.allocator := by
  cases h with
  | settled hu hc hs =>
    cases hs with
    | refused => exact ⟨rfl, rfl, rfl⟩
  | undecided => exact ⟨rfl, rfl, rfl⟩
  | misplaced => exact ⟨rfl, rfl, rfl⟩

/-- A call writes one name, for methods that had none, or it writes nothing. -/
theorem Call.resolved_cases (h : Call l policy c m n memory answer n' memory') :
    n'.resolved = n.resolved ∨ ∃ name, answer = .ok name ∧
      ((n.Unnamed (m :: l.graph.family c m) ∧
        n'.resolved = n.resolved.insertAll (m :: l.graph.family c m) name) ∨
      (n.resolved.get? m = none ∧ n'.resolved = n.resolved.insert m name ∧
        ∃ k ∈ l.graph.family c m, n.resolved.get? k = some name)) := by
  cases h with
  | known => exact .inl rfl
  | inherited hm hf hk => exact .inr ⟨_, rfl, .inr ⟨hm, rfl, _, hf, hk⟩⟩
  | settled hu hc hs =>
    cases hs with
    | fresh => exact .inr ⟨_, rfl, .inl ⟨hu, rfl⟩⟩
    | adopted => exact .inr ⟨_, rfl, .inl ⟨hu, rfl⟩⟩
    | stale => exact .inr ⟨_, rfl, .inl ⟨hu, rfl⟩⟩
    | refused => exact .inl rfl
  | undecided => exact .inl rfl
  | misplaced => exact .inl rfl
  | decided hu => exact .inr ⟨_, rfl, .inl ⟨hu, rfl⟩⟩

/-- Names that were there before a call are there after it. -/
theorem Call.keeps_name (h : Call l policy c m n memory answer n' memory')
    (hk : n.resolved.get? k = some name) : n'.resolved.get? k = some name := by
  rcases h.resolved_cases with he | ⟨name', _, ⟨hu, he⟩ | ⟨hm, he, _⟩⟩
  · rw [he, hk]
  · rw [he, Assoc.get?_insertAll, if_neg, hk]
    intro hmem
    rw [hu k hmem] at hk
    cases hk
  · rw [he, Assoc.get?_insert, if_neg, hk]
    rintro rfl
    rw [hm] at hk
    cases hk

/-- A call that gives a name leaves the method under it. -/
theorem Call.named (h : Call l policy c m n memory (.ok name) n' memory') :
    n'.resolved.get? m = some name := by
  cases h with
  | known hm => exact hm
  | inherited => rw [get?_withNames, if_pos List.mem_cons_self]
  | settled hu hc hs =>
    cases hs <;> rw [get?_withNames, if_pos List.mem_cons_self]
  | decided =>
    show ((n.withNames _ _).resolved.get? m) = _
    rw [get?_withNames, if_pos List.mem_cons_self]

/-- A method that has a name gets it again, whatever the policy, and nothing changes. -/
theorem exec_resolve_known (policy : Policy μ) (c : ClassId) (memory : μ)
    (h : n.resolved.get? m = some name) :
    (resolve l policy c m).exec (n, memory) = (.ok name, n, memory) := by
  unfold resolve
  rw [Step.exec_bind, Step.exec_onFirst, exec_begin_known h]
  rfl

theorem call_of_exec (r : Request) (l : Lineage) (n : Naming) :
    Call l r.policy (l.graph.method r.method).owner r.method n r.memory (r.exec l n).1
      (r.exec l n).2.1 (r.exec l n).2.2 := call_of_resolve _ _ _ _ _ _

/-! ## Uniform states -/

theorem Uniform.congr {g : Graph} (h : Uniform g n) (he : n'.resolved = n.resolved) :
    Uniform g n' := by
  unfold Uniform Unnamed Named
  rw [he]
  exact h

/-- A state without names of methods is uniform. -/
theorem uniform_of_resolved_eq {g : Graph} (h : n.resolved = ∅) : Uniform g n := by
  intro m _
  refine .inl ?_
  intro k _
  rw [h, Assoc.get?_empty]

/-- Under one name each member of a family is found, or none is. -/
theorem Uniform.named_of_mem {g : Graph} (hn : Uniform g n) (hm : m < g.methodCount)
    (hk : k ∈ familyOf g m) (h : n.resolved.get? k = some name) :
    n.Named (familyOf g m) name := by
  rcases hn m hm with hu | ⟨name', hname⟩
  · rw [hu k hk] at h
    cases h
  · rw [hname k hk] at h
    cases h
    exact hname

section

variable (hg : l.graph.Coherent) (hkeys : l.graph.KeysDistinct)

include hg hkeys

/-- A name for a whole family leaves the families uniform, since two of them are the same
or have no member in common. -/
theorem Uniform.withNames {methods : List MethodId} (hn : Uniform l.graph n)
    (hm : m < l.graph.methodCount) (hmethods : ∀ k, k ∈ methods ↔ k ∈ familyOf l.graph m)
    (he : n'.resolved = n.resolved.insertAll methods name) : Uniform l.graph n' := by
  have hget : ∀ k, n'.resolved.get? k =
      if k ∈ familyOf l.graph m then some name else n.resolved.get? k := by
    intro k
    rw [he, Assoc.get?_insertAll]
    simp only [hmethods]
  intro p hp
  by_cases hcommon : ∃ k ∈ familyOf l.graph p, k ∈ familyOf l.graph m
  · obtain ⟨k, hkp, hkm⟩ := hcommon
    right
    refine ⟨name, ?_⟩
    intro q hq
    have hqk := (Graph.mem_family_congr hg hkeys hp hkp).2 hq
    have hqm : q ∈ familyOf l.graph m := (Graph.mem_family_congr hg hkeys hm hkm).1 hqk
    rw [hget, if_pos hqm]
  · have hsame : ∀ q ∈ familyOf l.graph p, n'.resolved.get? q = n.resolved.get? q := by
      intro q hq
      rw [hget, if_neg fun hqm => hcommon ⟨q, hq, hqm⟩]
    rcases hn p hp with hu | ⟨name', hname⟩
    · exact .inl fun q hq => (hsame q hq).trans (hu q hq)
    · exact .inr ⟨name', fun q hq => (hsame q hq).trans (hname q hq)⟩

theorem Uniform.call (hn : Uniform l.graph n) (hm : m < l.graph.methodCount)
    (h : Call l policy (l.graph.method m).owner m n memory answer n' memory') :
    Uniform l.graph n' := by
  have hself := Graph.self_mem_family hg hkeys hm
  rcases h.resolved_cases with he | ⟨name, _, ⟨_, he⟩ | ⟨hnone, _, k, hk, hname⟩⟩
  · exact hn.congr he
  · refine hn.withNames hg hkeys hm (fun k => ?_) he
    rw [List.mem_cons, or_iff_right_of_imp]
    · rfl
    · rintro rfl
      exact hself
  · have := hn.named_of_mem hm hk hname m hself
    rw [hnone] at this
    cases this

/-- A call that gives a name leaves the whole family under it. -/
theorem Uniform.named_of_call (hn : Uniform l.graph n) (hm : m < l.graph.methodCount)
    (h : Call l policy (l.graph.method m).owner m n memory (.ok name) n' memory') :
    n'.Named (familyOf l.graph m) name := by
  exact (hn.call hg hkeys hm h).named_of_mem hm (Graph.self_mem_family hg hkeys hm) h.named

/-! ## Runs -/

theorem Uniform.after (hn : Uniform l.graph n) {requests : List Request}
    (hr : ∀ r ∈ requests, r.method < l.graph.methodCount) :
    Uniform l.graph (n.after l requests) := by
  induction requests generalizing n with
  | nil => exact hn
  | cons r rest ih =>
    refine ih ?_ fun r hmem => hr r (List.mem_cons_of_mem _ hmem)
    exact hn.call hg hkeys (hr r List.mem_cons_self) (call_of_exec r l n)

end

theorem named_after {methods : List MethodId} (h : n.Named methods name)
    (requests : List Request) : (n.after l requests).Named methods name := by
  induction requests generalizing n with
  | nil => exact h
  | cons r rest ih =>
    apply ih
    intro k hk
    exact (call_of_exec r l n).keeps_name (h k hk)

/-- Over any calls of a new resolver, whatever the policies do: each family has one name or
none, a family that has a name keeps it and is given it with nothing changed, a call that
fails changes no name and no number, and no policy decides a family twice. -/
theorem every_family_has_one_name {source : String} {doc : Document}
    (hload : Graph.ofDocument source doc = .ok l.graph) (hkeys : l.graph.KeysDistinct)
    (hnew : n.resolved = ∅) (requests : List Request)
    (hr : ∀ r ∈ requests, r.method < l.graph.methodCount) :
    Uniform l.graph (n.after l requests) ∧
    (∀ m < l.graph.methodCount, ∀ k ∈ familyOf l.graph m, ∀ name,
      (n.after l requests).resolved.get? k = some name →
      ∀ later : List Request, ∀ r : Request, r.method ∈ familyOf l.graph m →
        r.exec l (n.after l (requests ++ later)) =
          (.ok name, n.after l (requests ++ later), r.memory)) ∧
    (∀ r : Request, ∀ problem, (r.exec l (n.after l requests)).1 = .error problem →
      (r.exec l (n.after l requests)).2.1.resolved = (n.after l requests).resolved ∧
      (r.exec l (n.after l requests)).2.1.renamed = (n.after l requests).renamed ∧
      (r.exec l (n.after l requests)).2.1.allocator = (n.after l requests).allocator) ∧
    (∀ r : Request, r.method < l.graph.methodCount → r.Decides l (n.after l requests) →
      ∀ later : List Request, ∀ r' : Request, r'.method ∈ familyOf l.graph r.method →
        ¬ r'.Decides l (n.after l (requests ++ r :: later))) := by
  have hg := Graph.coherent_of_ofDocument hload
  have huniform : Uniform l.graph (n.after l requests) := by
    refine Uniform.after hg hkeys (fun m _ => .inl fun k _ => ?_) hr
    rw [hnew, Assoc.get?_empty]
  have hknown : ∀ (n : Naming) (r : Request) (name : String),
      n.resolved.get? r.method = some name → r.exec l n = (.ok name, n, r.memory) :=
    fun n r name h => exec_resolve_known r.policy _ r.memory h
  refine ⟨huniform, ?_, ?_, ?_⟩
  · intro m hm k hk name hname later r hmem
    have hnamed := named_after (l := l) (huniform.named_of_mem hm hk hname) later
    rw [after_append]
    exact hknown _ r name (hnamed _ hmem)
  · intro r problem hfail
    have hcall := call_of_exec r l (n.after l requests)
    rw [hfail] at hcall
    exact hcall.error_keeps
  · rintro r hm ⟨⟨name, hok⟩, _⟩ later r' hmem ⟨_, hasked⟩
    have hcall := call_of_exec r l (n.after l requests)
    rw [hok] at hcall
    have hnamed := named_after (l := l) (huniform.named_of_call hg hkeys hm hcall) later
    rw [after_append, after_cons] at hasked
    exact hasked (by rw [hknown _ r' name (hnamed _ hmem)])

/-- A class and one under it with the same method. -/
def overridden : Document where
  classes := [
    { name := "a", methods := [{ name := "x", desc := "()V" }] },
    { name := "b", superName? := some "a", methods := [{ name := "x", desc := "()V" }] }]

/-- The method had another name in each of the two classes. -/
def disputed : Lineage where
  graph := (Graph.ofDocument "" overridden).toOption.getD {}
  chain.current? := some (.tables { members := .ofList [
    (⟨"a", "x", "()V"⟩, ⟨"a", "method_1", "()V"⟩),
    (⟨"b", "x", "()V"⟩, ⟨"b", "method_2", "()V"⟩)] })

/-- The two names, from whichever method the family is seen. -/
theorem candidates_disputed :
    disputed.candidates 0 0 = [⟨"method_1", ["a.x()V"]⟩, ⟨"method_2", ["b<-a.x()V"]⟩] ∧
    disputed.candidates 1 1 = [⟨"method_1", ["a.x()V"]⟩, ⟨"method_2", ["b<-a.x()V"]⟩] := by
  have hits₀ : disputed.hits 0 0 = [⟨"method_1", "a.x()V"⟩, ⟨"method_2", "b<-a.x()V"⟩] := by
    cbv
  have hits₁ : disputed.hits 1 1 = [⟨"method_2", "b<-a.x()V"⟩, ⟨"method_1", "a.x()V"⟩] := by
    cbv
  unfold Lineage.candidates
  rw [hits₀, hits₁]
  simp [Candidate.ofHits, sortedSet, List.mergeSort, List.eraseDups_cons]

/-- Nobody decides at first, then the second name is taken. -/
def disputedStart : List Request := [⟨Unit, .fail, (), 0⟩, ⟨List Nat, .script, [2], 1⟩]

/-- Then the name is asked for by someone who would not decide. -/
def disputedRequests : List Request := disputedStart ++ [⟨Unit, .fail, (), 0⟩]

/-- The first call fails and leaves no name, so the second one has the choice. -/
theorem get?_disputedStart :
    (Naming.after {} disputed disputedStart).resolved.get? 1 = some "method_2" := by
  obtain ⟨hleft, hright⟩ := candidates_disputed
  have hfirst := call_of_exec ⟨Unit, .fail, (), 0⟩ disputed {}
  have htwo : 2 ≤ (disputed.candidates 0 0).length := by
    rw [hleft]
    decide
  obtain ⟨-, hnone⟩ := (hfirst.contested rfl htwo).1 _ rfl
  have hsecond := call_of_exec ⟨List Nat, .script, [2], 1⟩ disputed
    (Naming.after {} disputed [⟨Unit, .fail, (), 0⟩])
  have htwo' : 2 ≤ (disputed.candidates 1 1).length := by
    rw [hright]
    decide
  have hplace : (disputed.candidates 1 1)[1]? = some ⟨"method_2", ["b<-a.x()V"]⟩ := by
    rw [hright]
    rfl
  have hdecision : (Policy.script.decide (disputed.conflict 1 1) [2]).answer = .ok 1 := by
    simp [Policy.script, takeChoice, Conflict.place?, Lineage.conflict, hright]
  obtain ⟨hanswer, -⟩ := (hsecond.contested hnone htwo').2 1 _ hdecision hplace
  rw [hanswer] at hsecond
  exact hsecond.named

/-- The family has the second name, also for those who would not decide. -/
theorem every_family_has_one_name_disputed :
    disputed.graph.KeysDistinct ∧
    (∀ r ∈ disputedRequests, r.method < disputed.graph.methodCount) ∧
    Uniform disputed.graph (Naming.after {} disputed disputedRequests) ∧
    familyOf disputed.graph 0 = [0, 1] ∧
    (Naming.after {} disputed disputedRequests).Named [0, 1] "method_2" := by
  have hload : Graph.ofDocument "" overridden = .ok disputed.graph := rfl
  have hkeys : disputed.graph.KeysDistinct := by decide
  have hr : ∀ r ∈ disputedRequests, r.method < disputed.graph.methodCount := by decide
  have hfamily : familyOf disputed.graph 0 = [0, 1] := by cbv
  have hmem : 1 ∈ familyOf disputed.graph 0 := by
    rw [hfamily]
    decide
  obtain ⟨hstart, hkept, -⟩ := every_family_has_one_name (n := {}) hload hkeys rfl disputedStart
    fun r h => hr r (List.mem_append_left _ h)
  have hasked := hkept 0 (by decide) 1 hmem "method_2" get?_disputedStart [] ⟨Unit, .fail, (), 0⟩
    (by rw [hfamily]; decide)
  have hafter : Naming.after {} disputed disputedRequests =
      Naming.after {} disputed disputedStart := by
    rw [List.append_nil] at hasked
    unfold disputedRequests
    rw [after_append, after_cons, hasked]
    rfl
  have hnamed := hstart.named_of_mem (m := 0) (by decide) hmem get?_disputedStart
  rw [hfamily] at hnamed
  rw [hafter]
  exact ⟨hkeys, hr, hstart, hfamily, hnamed⟩

end Naming

end StableNames
