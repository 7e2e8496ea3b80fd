-- Two ways to take the names of a snapshot of the same version. One asks
-- its store for each symbol. The other takes the graph as its own earlier
-- version and each symbol as its own match. A run sees no difference: it
-- asks for names and candidates, and these are the same.
import StableNames.Proofs.Naming.Candidates
import StableNames.Proofs.Naming.FamilyNames
import StableNames.Proofs.Session.Asked

namespace StableNames

namespace Lineage

/-- All that a run takes from the lineages is the same. -/
structure Agree (l l' : Lineage) : Prop where
  graph : l'.graph = l.graph
  lookupClass : ∀ name, l'.chain.lookupClass name = l.chain.lookupClass name
  lookupMember : ∀ member, l'.chain.lookupMember member = l.chain.lookupMember member
  candidates : ∀ m < l.graph.methodCount,
    l'.candidates (l.graph.method m).owner m = l.candidates (l.graph.method m).owner m

theorem agree_rederiving {g : Graph} (hg : g.Coherent) (hk : g.KeysDistinct) (store : Store) :
    Agree (regenerating g store) (rederiving g store) where
  graph := rfl
  lookupClass name := by
    rw [lookupClass_regenerating, rederiving_eq]
    exact lookupClass_updating rfl
  lookupMember member := by
    rw [lookupMember_regenerating, rederiving_eq]
    exact lookupMember_updating rfl
  candidates m hm := candidates_rederiving hg hk hm

end Lineage

theorem mapM_congr {σ ι α : Type} {f f' : ι → Step σ α} {is : List ι}
    (h : ∀ i ∈ is, f i = f' i) : is.mapM f = is.mapM f' := by
  induction is with
  | nil => rfl
  | cons i is ih =>
    have htail := ih fun j hj => h j (List.mem_cons_of_mem _ hj)
    rw [List.mapM_cons, List.mapM_cons, h i List.mem_cons_self, htail]

namespace Lineage.Agree

variable {μ : Type} {l l' : Lineage} {policy : Policy μ} {settings : Settings} {c : ClassId}
  {m : MethodId} (h : Agree l l')

include h

theorem classTarget (around : String) :
    Session.classTarget settings l' c around = Session.classTarget settings l c around := by
  unfold Session.classTarget
  simp only [h.graph, h.lookupClass]

theorem fieldRecord (owner : String) (f : FieldId) :
    Session.fieldRecord l' owner f = Session.fieldRecord l owner f := by
  unfold Session.fieldRecord Session.fieldName
  simp only [h.graph, h.lookupMember]

theorem resolve (hm : m < l.graph.methodCount) :
    Naming.resolve l' policy (l.graph.method m).owner m =
      Naming.resolve l policy (l.graph.method m).owner m := by
  unfold Naming.resolve Naming.begin
  simp only [h.graph, h.candidates m hm]

theorem methodRecord (hm : m < l.graph.methodCount) :
    Session.methodRecord l' policy (l.graph.method m).owner m =
      Session.methodRecord l policy (l.graph.method m).owner m := by
  unfold Session.methodRecord
  simp only [h.graph, h.resolve hm]

theorem classRecords (hg : l.graph.Coherent) (target : String) :
    Session.classRecords settings l' policy c target =
      Session.classRecords settings l policy c target := by
  have hmethods : ((l.graph.classInfo c).methods.filter (Session.isWritten l.graph c)).mapM
      (Session.methodRecord l' policy c) =
        ((l.graph.classInfo c).methods.filter (Session.isWritten l.graph c)).mapM
          (Session.methodRecord l policy c) := by
    apply mapM_congr
    intro m hm
    obtain ⟨hlt, rfl⟩ := (hg.mem_methods c m).1 (List.mem_of_mem_filter hm)
    exact h.methodRecord hlt
  unfold Session.classRecords
  simp only [h.graph, h.fieldRecord, hmethods]

theorem records (hg : l.graph.Coherent) (targets : List String) (classes : List ClassId) :
    Session.records settings l' policy targets classes =
      Session.records settings l policy targets classes := by
  induction classes generalizing targets with
  | nil => rfl
  | cons c rest ih =>
    unfold Session.records
    simp only [h.graph, h.classTarget, h.classRecords hg, ih]

/-- A run gives the same result on both, and leaves the same behind. -/
theorem generate (hg : l.graph.Coherent) (settings : Settings) (policy : Policy μ)
    (naming : Naming) (memory : μ) :
    (Session.generate ⟨settings, l', naming⟩ policy memory).1 =
      (Session.generate ⟨settings, l, naming⟩ policy memory).1 ∧
    (Session.generate ⟨settings, l', naming⟩ policy memory).2.1.naming =
      (Session.generate ⟨settings, l, naming⟩ policy memory).2.1.naming ∧
    (Session.generate ⟨settings, l', naming⟩ policy memory).2.2 =
      (Session.generate ⟨settings, l, naming⟩ policy memory).2.2 := by
  have hrecords : Session.allRecords settings l' policy = Session.allRecords settings l policy := by
    unfold Session.allRecords
    rw [h.graph, h.records hg]
  unfold Session.generate
  rw [hrecords]
  rcases (Session.allRecords settings l policy).exec (naming, memory) with ⟨_ | rs, n, memory⟩ <;>
    exact ⟨rfl, rfl, rfl⟩

end Lineage.Agree

namespace Session

/-- A snapshot of the same version leads to the same run by both ways, whoever wrote it: the
outcome, the state left behind and all that the policy is asked are the same. -/
theorem rederiving_agrees_with_regenerating {μ : Type} {source : String} {doc : Document}
    {g : Graph} (hload : Graph.ofDocument source doc = .ok g) (hkeys : g.KeysDistinct)
    (settings : Settings) (counters : List (Category × Nat)) (store : Store)
    (policy : Policy μ) (memory : μ) :
    let fresh := (start settings g).applyCounters counters
    let regenerating := fresh.setCurrent store
    let rederiving := (fresh.setOldGraph g).setEarlier { toOld := .identity, names := store }
    (rederiving.generate policy memory).1 = (regenerating.generate policy memory).1 ∧
      (rederiving.generate policy memory).2.1.naming =
        (regenerating.generate policy memory).2.1.naming ∧
      (rederiving.generate policy memory).2.2 = (regenerating.generate policy memory).2.2 ∧
      rederiving.asked policy memory = regenerating.asked policy memory := by
  intro fresh regenerating rederiving
  have hg := Graph.coherent_of_ofDocument hload
  have hagree := Lineage.agree_rederiving hg hkeys store
  obtain ⟨hout, hnaming, hmemory⟩ := hagree.generate hg settings policy fresh.naming memory
  obtain ⟨_, _, htraced⟩ := hagree.generate hg settings policy.traced fresh.naming (memory, [])
  exact ⟨hout, hnaming, hmemory, congrArg Prod.snd htraced⟩

theorem rederiving_agrees_with_regenerating_disputed :
    Naming.disputed.graph.KeysDistinct ∧
    (((((start .default Naming.disputed.graph).applyCounters [(.ofMethod, 3)]).setOldGraph
      Naming.disputed.graph).setEarlier
        { toOld := .identity, names := Naming.disputed.chain.current?.getD .identity }).asked
          Policy.script [2]) =
    ((((start .default Naming.disputed.graph).applyCounters [(.ofMethod, 3)]).setCurrent
      (Naming.disputed.chain.current?.getD .identity)).asked Policy.script [2]) := by
  have hload : Graph.ofDocument "" Naming.overridden = .ok Naming.disputed.graph := rfl
  have hkeys : Naming.disputed.graph.KeysDistinct := by decide
  exact ⟨hkeys, (rederiving_agrees_with_regenerating hload hkeys .default [(.ofMethod, 3)]
    (Naming.disputed.chain.current?.getD .identity) Policy.script [2]).2.2.2⟩

end Session

end StableNames
