-- Overrides without a record. A method that overrides another one is not
-- written, since what it overrides is written and says its name. Which
-- methods are written follows one search of the hierarchy and how they are
-- named another one, so it takes both to see that no name is lost.
import Mathlib.Data.List.Permutation
import StableNames.Proofs.Graph.FirstDeclarations
import StableNames.Proofs.Session.FirstRun
import StableNames.Proofs.Session.Records

namespace StableNames

namespace Session

open Naming

variable {μ : Type} {settings : Settings} {m : MethodId} {target : String}

/-- A session over its graph: new, or prepared further, or after a run, whether that gave a
result or failed. -/
inductive Underway : Session → Prop
  | unused {s : Session} (h : s.naming.resolved = ∅) : Underway s
  | prepared {s s' : Session} (h : Underway s) (hgraph : s'.lineage.graph = s.lineage.graph)
      (hresolved : s'.naming.resolved = s.naming.resolved) : Underway s'
  | ran {s : Session} {μ : Type} (h : Underway s) (policy : Policy μ) (memory : μ) :
      Underway (s.generate policy memory).2.1

/-- A run keeps what no call breaks. -/
theorem kept_generate {I : Naming → μ → Prop} {s : Session} {policy : Policy μ} {memory : μ}
    (hI : Kept s.lineage policy I) (hg : s.lineage.graph.Coherent) (h : I s.naming memory) :
    I (s.generate policy memory).2.1.naming (s.generate policy memory).2.2 := by
  rcases hx : (allRecords s.settings s.lineage policy).exec (s.naming, memory) with
    ⟨problem | rs, n, memory'⟩
  · rw [generate_of_exec_error hx]
    exact (runs_allRecords hI hg _ _ _ _ _ h hx).1
  · rw [generate_of_exec hx]
    exact (runs_allRecords hI hg _ _ _ _ _ h hx).1

theorem Underway.uniform {s : Session} (h : Underway s) (hg : s.lineage.graph.Coherent)
    (hk : s.lineage.graph.KeysDistinct) : Uniform s.lineage.graph s.naming := by
  induction h with
  | unused h => exact uniform_of_resolved_eq h
  | prepared _ hgraph hresolved ih =>
    rw [hgraph] at hg hk ⊢
    exact (ih hg hk).congr hresolved
  | @ran s _ _ policy memory ih =>
    rw [(generate_keeps s policy memory).2] at hg hk ⊢
    exact kept_generate (kept_uniform hg hk) hg (ih hg hk)

/-! ## What is written -/

/-- The record of a method with this target. -/
def recordOf (g : Graph) (m : MethodId) (target : String) : Record :=
  .ofMethod (g.className (g.method m).owner) (g.method m).desc (g.method m).name target

theorem recordOf_mem_recordsOn {R : Roster} {g : Graph} (hg : g.Coherent)
    (hs : g.SignaturesApart) (hmap : settings.mapMethods = true) (hm : m < g.methodCount) :
    recordOf g m target ∈ R.recordsOn settings g (fun _ => true) ↔
      isWritten g (g.method m).owner m = true ∧ target = R.methodName g m := by
  unfold recordOf
  rw [Roster.mem_recordsOn_method hg hs hm, mem_writtenMethods hg]
  constructor
  · rintro ⟨_, ⟨_, _, _, hw⟩, htarget⟩
    exact ⟨hw, htarget⟩
  · rintro ⟨hw, htarget⟩
    exact ⟨rfl, ⟨hmap, hm, rfl, hw⟩, htarget⟩

/-- What an override that is not written overrides first, is written. -/
theorem exists_overrides_written {g : Graph} (hg : g.Coherent) (hs : g.SignaturesApart)
    (hacyclic : g.Acyclic) (hm : m < g.methodCount) (hinit : (g.method m).isInitializer = false)
    (hw : isWritten g (g.method m).owner m = false) :
    (g.method m).isFixed = false ∧
      ∃ n, g.Overrides m n ∧ isWritten g (g.method n).owner n = true := by
  unfold isWritten at hw
  rw [hinit, Bool.not_false, Bool.true_and] at hw
  obtain ⟨n, hover, hfirst⟩ := Graph.exists_overrides_source hg hs hacyclic hm hw
  refine ⟨(Bool.or_eq_false_iff.1 hw).1, n, hover, ?_⟩
  unfold isWritten MethodInfo.isInitializer
  unfold MethodInfo.isInitializer at hinit
  rw [hover.name_eq, hinit, hfirst]
  rfl

/-- Every override without a record has its name in one. Let all classes be written, with their
methods, and let no class stand above itself. A method has a record if and only if it is no
initializer and is declared first. Any other that is no initializer overrides a method with a
record, and the records of all that it overrides have one target: the name that is held for it,
or its own name if that is not scrambled. -/
theorem overrides_have_their_names_in_records {source : String} {doc : Document}
    {s s' : Session} (hload : Graph.ofDocument source doc = .ok s.lineage.graph)
    (hs : s.lineage.graph.SignaturesApart) (hacyclic : s.lineage.graph.Acyclic)
    (hunderway : Underway s) (hincludes : s.settings.includes = [])
    (hmap : s.settings.mapMethods = true) {policy : Policy μ} {memory memory' : μ}
    {out : Generated} (hgen : s.generate policy memory = (.ok out, s', memory')) :
    ∃ rs, out.text = textOf rs out.counters ∧
      (∀ m < s.lineage.graph.methodCount, (∃ target, recordOf s.lineage.graph m target ∈ rs) ↔
        isWritten s.lineage.graph (s.lineage.graph.method m).owner m = true) ∧
      ∀ m < s.lineage.graph.methodCount, (s.lineage.graph.method m).isInitializer = false →
        (∀ target, recordOf s.lineage.graph m target ∉ rs) →
        (∃ n target, s.lineage.graph.Overrides m n ∧ recordOf s.lineage.graph n target ∈ rs) ∧
        ∀ n target, s.lineage.graph.Overrides m n → recordOf s.lineage.graph n target ∈ rs →
          (if isScrambledMethod (s.lineage.graph.method m).name then s'.naming.resolved.get? m
            else some (s.lineage.graph.method m).name) = some target := by
  have hg := Graph.coherent_of_ofDocument hload
  have hk := hs.keysDistinct
  obtain ⟨rs, hx, rfl⟩ := generate_eq_ok hgen
  obtain ⟨huniform, _, hN⟩ := runs_allRecords (kept_uniform hg hk) hg _ _ _ _ _
    (hunderway.uniform hg hk) hx
  obtain ⟨classes, _, rfl, hclasses⟩ := hN rs rfl _ (.refl _)
  rw [included_of_nil _ hincludes] at hclasses ⊢
  have hrecord := fun n (hn : n < s.lineage.graph.methodCount) target =>
    @recordOf_mem_recordsOn s.settings n target (s.lineage.roster s'.naming classes) _ hg hs hmap hn
  refine ⟨_, rfl, ?written, ?unwritten⟩
  case written =>
    intro m hm
    simp only [hrecord m hm, exists_and_left, exists_eq, and_true]
  case unwritten =>
    intro m hm hinit hnone
    have hw : isWritten s.lineage.graph (s.lineage.graph.method m).owner m = false := by
      rw [← Bool.not_eq_true]
      intro hw
      exact hnone _ ((hrecord m hm _).2 ⟨hw, rfl⟩)
    obtain ⟨hf, n, hover, hwritten⟩ := exists_overrides_written hg hs hacyclic hm hinit hw
    refine ⟨⟨n, _, hover, (hrecord n hover.lt _).2 ⟨hwritten, rfl⟩⟩, ?_⟩
    intro n target hover hmem
    obtain ⟨hwritten, rfl⟩ := (hrecord n hover.lt target).1 hmem
    unfold Roster.methodName
    rw [hover.name_eq]
    split
    · rename_i hscrambled
      have hgood := ((hclasses _ (hg.owner_lt n hover.lt)).1 rfl).methods n
        ((mem_writtenMethods hg).2 ⟨hmap, hover.lt, rfl, hwritten⟩)
      obtain ⟨name, hname⟩ := hgood (by rw [hover.name_eq, hscrambled])
      have hnamed := huniform.named_of_mem hm (hover.mem_family hg hs hm hf) hname
      rw [hnamed m (Graph.self_mem_family hg hk hm), Lineage.roster]
      simp only
      rw [hname, Option.getD_some]
    · rfl

/-- Class `c` overrides the method of a class and of an interface, and `d` overrides all three. -/
def overriddenTwice : Document where
  classes := [
    { name := "a", methods := [⟨"m", "()V", 0, []⟩] },
    { name := "i", access := interfaceBit, methods := [⟨"m", "()V", 0, []⟩] },
    { name := "c", superName? := some "a", interfaceNames := ["i"],
      methods := [⟨"<init>", "()V", 0, []⟩, ⟨"m", "()V", 0, []⟩] },
    { name := "d", superName? := some "c", methods := [⟨"m", "()V", 0, []⟩] }]

def overridingSession : Session :=
  start { obfuscated := [] } ((Graph.ofDocument "" overriddenTwice).toOption.getD {})

/-- The lowest override has no record, and it goes by the name in the records above it. -/
theorem overrides_have_their_names_in_records_twice :
    overridingSession.lineage.graph.SignaturesApart ∧ overridingSession.lineage.graph.Acyclic ∧
    overridingSession.settings.includes = [] ∧ overridingSession.settings.mapMethods = true ∧
    ∃ out s' rs target, overridingSession.generate Policy.fail () = (.ok out, s', ()) ∧
      out.text = textOf rs out.counters ∧
      (∀ target, recordOf overridingSession.lineage.graph 4 target ∉ rs) ∧
      recordOf overridingSession.lineage.graph 0 target ∈ rs ∧
      recordOf overridingSession.lineage.graph 1 target ∈ rs ∧
      s'.naming.resolved.get? 4 = some target := by
  have hload : Graph.ofDocument "" overriddenTwice = .ok overridingSession.lineage.graph := rfl
  have hg := Graph.coherent_of_ofDocument hload
  have hs : overridingSession.lineage.graph.SignaturesApart := by decide
  have hacyclic : overridingSession.lineage.graph.Acyclic :=
    Graph.acyclic_of_lt hg (by decide +kernel)
  obtain ⟨out, s', hgen⟩ := @exists_generated_of_sorted Unit overridingSession rfl
    (Allocator.sorted_of_numbers_eq rfl) Policy.fail ()
  obtain ⟨rs, htext, hrecords, hnames⟩ :=
    overrides_have_their_names_in_records hload hs hacyclic (.unused rfl) rfl rfl hgen
  have hnone : ∀ target, recordOf overridingSession.lineage.graph 4 target ∉ rs := by
    intro target hmem
    have hwritten := (hrecords 4 (by decide)).1 ⟨target, hmem⟩
    rw [show isWritten overridingSession.lineage.graph
      (overridingSession.lineage.graph.method 4).owner 4 = false by cbv] at hwritten
    cases hwritten
  have hnamed := (hnames 4 (by decide) (by decide) hnone).2
  obtain ⟨target, hfirst⟩ := (hrecords 0 (by decide)).2 (by cbv)
  obtain ⟨target', hsecond⟩ := (hrecords 1 (by decide)).2 (by cbv)
  have hbelow : 2 ∈ overridingSession.lineage.graph.supertypes 3 := by decide +kernel
  have habove : ∀ a ∈ [0, 1], a ∈ overridingSession.lineage.graph.supertypes 2 := by
    decide +kernel
  have htarget := hnamed 0 target
    ⟨by decide, .tail (.single hbelow) (habove 0 (by decide)), rfl, rfl, rfl⟩ hfirst
  have htarget' := hnamed 1 target'
    ⟨by decide, .tail (.single hbelow) (habove 1 (by decide)), rfl, rfl, rfl⟩ hsecond
  rw [if_pos (by decide)] at htarget htarget'
  obtain rfl := Option.some.inj (htarget.symm.trans htarget')
  exact ⟨hs, hacyclic, rfl, rfl, out, s', rs, target, hgen, htext, hnone, hfirst, hsecond, htarget⟩

end Session

end StableNames
