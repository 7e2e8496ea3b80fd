-- Runs one after another. Each starts with the counters that stand in the
-- text of the run before it. So its numbers come after all that were given
-- before, and no number is given again in a later run, whatever becomes of
-- the symbol that had it.
import StableNames.Proofs.Session.Records

namespace StableNames

open Session

/-! ## Runs -/

/-- What a run works on: its settings, all that names come from, and who decides. -/
structure Job where
  μ : Type
  settings : Settings
  lineage : Lineage
  policy : Policy μ
  memory : μ

/-- The run of a job that starts with counters. -/
def Job.run (j : Job) (counters : List (Category × Nat)) :
    Except Problem Generated × Session × j.μ :=
  (applyCounters { settings := j.settings, lineage := j.lineage } counters).generate j.policy
    j.memory

/-- The names that a job meets can be written in a snapshot. -/
structure Job.Clean (j : Job) : Prop where
  loaded : ∃ source doc, Graph.ofDocument source doc = .ok j.lineage.graph
  names : j.lineage.graph.CleanNames
  chain : j.lineage.chain.Clean
  unbroken : Unbroken j.settings.targetNamespace

/-- A job that was done: the counters that it started with, its result and the session
after it. -/
structure Run where
  job : Job
  counters : List (Category × Nat)
  out : Generated
  after : Session

namespace Run

/-- The job gave this result, and its counters did not overflow. -/
structure Complete (r : Run) : Prop where
  clean : r.job.Clean
  done : ∃ memory, r.job.run r.counters = (.ok r.out, r.after, memory)
  fit : r.out.counters.Fit

/-- The name was handed out in the run. -/
def HandsOut (r : Run) (name : String) : Prop :=
  ∃ symbol category n, r.after.naming.allocator.numbers.get? symbol = some (category, n) ∧
    name = category.name n

/-- The records of a run, given the new names of its classes. -/
def records (r : Run) (classes : List String) : List Record :=
  (r.job.lineage.roster r.after.naming classes).recordsOn r.job.settings r.job.lineage.graph
    (included r.job.settings r.job.lineage.graph)

/-- What is known of a complete run: its text is that of a roster, and its numbers start
with its counters. -/
theorem Complete.exists_outcome {r : Run} (h : r.Complete) :
    ∃ classes, r.job.lineage.Outcome r.job.settings r.after.naming classes ∧
      r.after.naming.allocator.Tidy (Counters.setAll {} r.counters) ∧
      r.out = result r.after.naming (r.records classes) := by
  obtain ⟨source, doc, hload⟩ := h.clean.loaded
  obtain ⟨memory, hrun⟩ := h.done
  have hg := Graph.coherent_of_ofDocument hload
  obtain ⟨classes, houtcome, htidy, _, hout⟩ :=
    Session.exists_outcome hg h.clean.names h.clean.chain hrun
  exact ⟨classes, houtcome, htidy, hout⟩

variable {r r' : Run}

theorem Complete.tidy (h : r.Complete) :
    r.after.naming.allocator.Tidy (Counters.setAll {} r.counters) := by
  obtain ⟨_, _, htidy, _⟩ := h.exists_outcome
  exact htidy

theorem Complete.counters_eq (h : r.Complete) :
    r.out.counters = r.after.naming.allocator.counters := by
  obtain ⟨_, _, _, hout⟩ := h.exists_outcome
  rw [hout]
  rfl

/-- The text of a complete run is read back as its records and counters. -/
theorem Complete.readSnapshot_records (h : r.Complete) {classes : List String}
    (houtcome : r.job.lineage.Outcome r.job.settings r.after.naming classes)
    (hout : r.out = result r.after.naming (r.records classes)) (file : String) :
    readSnapshot file r.out.text = .ok (.written (r.records classes) r.out.counters) := by
  obtain ⟨source, doc, hload⟩ := h.clean.loaded
  have hg := Graph.coherent_of_ofDocument hload
  have hmade := houtcome.wellMade hg h.clean.chain h.clean.names
  have hfit : r.after.naming.allocator.counters.Fit := h.counters_eq ▸ h.fit
  rw [h.counters_eq, hout]
  exact Session.readSnapshot_text
    (fun _ hr => hmade.clean_records hg h.clean.names h.clean.unbroken hr) hfit file

/-- The text of a complete run is read back, and its counters with it. -/
theorem Complete.readSnapshot_text (h : r.Complete) (file : String) :
    ∃ snapshot, readSnapshot file r.out.text = .ok snapshot ∧
      snapshot.counters = r.out.counters.toList := by
  obtain ⟨classes, houtcome, _, hout⟩ := h.exists_outcome
  exact ⟨_, h.readSnapshot_records houtcome hout file, counters_written _ _⟩

/-- A run hands out nothing that was handed out in a run with counters behind its own. -/
theorem Complete.not_handsOut (h : r.Complete) (h' : r'.Complete)
    (hgrows : r.out.counters.Grows (Counters.setAll {} r'.counters)) {name : String}
    (hname : r.HandsOut name) : ¬ r'.HandsOut name := by
  obtain ⟨symbol, category, n, hn, rfl⟩ := hname
  rintro ⟨symbol', category', n', hn', heq⟩
  rw [h.counters_eq] at hgrows
  exact h.tidy.name_ne h'.tidy hgrows hn hn' heq

end Run

namespace Job

/-- A job with this document, in which every class is scrambled. -/
def ofDocument (doc : Document) (chain : Chain) : Job where
  μ := Unit
  settings := allScrambled
  lineage := { graph := (Graph.ofDocument "" doc).toOption.getD {}, chain }
  policy := .fail
  memory := ()

theorem clean_ofDocument {doc : Document} {chain : Chain}
    (hload : (Graph.ofDocument "" doc).toOption.isSome = true)
    (hnames : (ofDocument doc chain).lineage.graph.CleanNames) (hchain : chain.Clean) :
    (ofDocument doc chain).Clean := by
  have hns : Unbroken "net/minecraft/" := by decide
  refine ⟨⟨"", doc, ?_⟩, hnames, hchain, hns⟩
  unfold ofDocument
  rcases hg : Graph.ofDocument "" doc with problem | g
  · rw [hg] at hload
    cases hload
  · rfl

/-- A job with what came of it. -/
def ran (j : Job) (counters : List (Category × Nat)) : Run :=
  ⟨j, counters, (j.run counters).1.toOption.getD default, (j.run counters).2.1⟩

theorem complete_ran {j : Job} {counters : List (Category × Nat)} {cs : Counters}
    (hclean : j.Clean) (hok : (j.run counters).1.toOption.isSome = true) (hfit : cs.Fit)
    (hcounters : (j.ran counters).out.counters = cs) : (j.ran counters).Complete := by
  refine ⟨hclean, ⟨(j.run counters).2.2, ?_⟩, hcounters ▸ hfit⟩
  rcases hrun : j.run counters with ⟨problem | out, after, memory⟩
  · rw [hrun] at hok
    cases hok
  · unfold ran
    rw [hrun]
    rfl

end Job

/-! ## Histories -/

/-- Runs one after another, the last one first. The first run starts without counters, and
each later one with those in the text of the run before it. -/
inductive History : List Run → Prop
  | first {r : Run} (hr : r.Complete) (hstart : r.counters = []) : History [r]
  | next {r prev : Run} {before : List Run} (h : History (prev :: before)) (hr : r.Complete)
      {file : String} {snapshot : Snapshot}
      (hread : readSnapshot file prev.out.text = .ok snapshot)
      (hstart : r.counters = snapshot.counters) : History (r :: prev :: before)

namespace History

variable {runs before : List Run} {r prev : Run}

theorem complete (h : History runs) : ∀ r ∈ runs, r.Complete := by
  induction h with
  | first hr => simpa using hr
  | next _ hr _ _ ih => exact List.forall_mem_cons.2 ⟨hr, ih⟩

/-- A run starts with the counters that the run before it ended with. -/
theorem setAll_counters (hprev : prev.Complete) {file : String} {snapshot : Snapshot}
    (hread : readSnapshot file prev.out.text = .ok snapshot)
    (hstart : r.counters = snapshot.counters) :
    Counters.setAll {} r.counters = prev.out.counters := by
  obtain ⟨snapshot', hread', hcounters⟩ := hprev.readSnapshot_text file
  rw [hread] at hread'
  cases hread'
  rw [hstart, hcounters, setAll_toList]

/-- The counters only grow. -/
theorem grows (h : History (r :: before)) :
    ∀ earlier ∈ before, earlier.out.counters.Grows (Counters.setAll {} r.counters) := by
  generalize hruns : r :: before = runs at h
  induction h generalizing r before with
  | first =>
    cases hruns
    simp
  | @next _ prev _ h hr _ _ hread hstart ih =>
    cases hruns
    have hprev := h.complete prev List.mem_cons_self
    rw [setAll_counters hprev hread hstart]
    refine List.forall_mem_cons.2 ⟨.refl _, ?_⟩
    intro earlier hearlier
    have hstep := hprev.tidy.grows
    rw [← hprev.counters_eq] at hstep
    exact (ih rfl earlier hearlier).trans hstep

/-- A number is never used again. Take runs one after another, each of which starts with the
counters in the text of the one before. Every text is read back with its counters. No
counter of an earlier run is ahead of that of a later one, and no name that was handed out
in one run is handed out in another, whatever was named in between. -/
theorem no_number_is_used_again (h : History runs) :
    (∀ r ∈ runs, ∀ file, ∃ snapshot, readSnapshot file r.out.text = .ok snapshot ∧
      Counters.setAll {} snapshot.counters = r.out.counters) ∧
    runs.Pairwise fun later earlier => earlier.out.counters.Grows later.out.counters ∧
      ∀ name, earlier.HandsOut name → ¬ later.HandsOut name := by
  constructor
  · intro r hr file
    obtain ⟨snapshot, hread, hcounters⟩ := (h.complete r hr).readSnapshot_text file
    exact ⟨snapshot, hread, by rw [hcounters, setAll_toList]⟩
  · induction h with
    | first => exact List.pairwise_singleton _ _
    | next h hr hread hstart ih =>
      refine List.pairwise_cons.2 ⟨?_, ih⟩
      intro earlier hearlier
      have hgrows := (History.next h hr hread hstart).grows earlier hearlier
      have hstep := hr.tidy.grows
      rw [← hr.counters_eq] at hstep
      exact ⟨hgrows.trans hstep, fun _ hname =>
        (h.complete earlier hearlier).not_handsOut hr hgrows hname⟩

theorem no_number_is_used_again_after_gap :
    ((Job.ofDocument ⟨[{ name := "a" }]⟩ {}).ran []).HandsOut "class_1" ∧
      ((Job.ofDocument ⟨[{ name := "b" }]⟩ {}).ran [(.ofClass, 2)]).HandsOut "class_2" ∧
      ¬ ((Job.ofDocument ⟨[{ name := "b" }]⟩ {}).ran [(.ofClass, 2)]).HandsOut "class_1" := by
  have hfit : Counters.Fit { classes := some 2 } ∧ Counters.Fit { classes := some 3 } := by decide
  have hfirst : ((Job.ofDocument ⟨[{ name := "a" }]⟩ {}).ran []).Complete :=
    Job.complete_ran (Job.clean_ofDocument rfl (by decide) Chain.clean_empty)
      (by decide +kernel) hfit.1 (by decide +kernel)
  -- in the run between there is nothing to name
  have hgap : ((Job.ofDocument ⟨[]⟩ {}).ran [(.ofClass, 2)]).Complete :=
    Job.complete_ran (Job.clean_ofDocument rfl (by decide) Chain.clean_empty)
      (by decide +kernel) hfit.1 (by decide +kernel)
  have hlast : ((Job.ofDocument ⟨[{ name := "b" }]⟩ {}).ran [(.ofClass, 2)]).Complete :=
    Job.complete_ran (Job.clean_ofDocument rfl (by decide) Chain.clean_empty)
      (by decide +kernel) hfit.2 (by decide +kernel)
  obtain ⟨snapshot₁, hread₁, hcounters₁⟩ := hfirst.readSnapshot_text ""
  obtain ⟨snapshot₂, hread₂, hcounters₂⟩ := hgap.readSnapshot_text ""
  have hstart₁ : [(.ofClass, 2)] = snapshot₁.counters := hcounters₁ ▸ by decide +kernel
  have hstart₂ : [(.ofClass, 2)] = snapshot₂.counters := hcounters₂ ▸ by decide +kernel
  have hhistory := ((History.first hfirst rfl).next hgap hread₁ hstart₁).next hlast hread₂ hstart₂
  have hout₁ : ((Job.ofDocument ⟨[{ name := "a" }]⟩ {}).ran []).HandsOut "class_1" :=
    ⟨.ofClass 0, .ofClass, 1, by decide +kernel, by decide⟩
  have hout₃ :
      ((Job.ofDocument ⟨[{ name := "b" }]⟩ {}).ran [(.ofClass, 2)]).HandsOut "class_2" :=
    ⟨.ofClass 0, .ofClass, 2, by decide +kernel, by decide⟩
  obtain ⟨hlater, _⟩ := List.pairwise_cons.1 (no_number_is_used_again hhistory).2
  have hnever := hlater _ (List.mem_cons_of_mem _ List.mem_cons_self)
  exact ⟨hout₁, hout₃, hnever.2 _ hout₁⟩

end History

end StableNames
