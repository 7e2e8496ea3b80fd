-- Every output is a fixed point. The text of a run is read back into a
-- store that knows each symbol under the name that it has in the text, so
-- a run with this store writes the same text again.
import Mathlib
import StableNames.Proofs.Session.Regeneration
import StableNames.Proofs.Session.Rederiving
import StableNames.Session.Prepare

namespace StableNames

namespace Roster

variable {g : Graph} {R : Roster} {settings : Settings} {cs : Counters}

/-- The store of the records knows every symbol under its name in the roster. -/
theorem known_regenerating (h : R.Sound settings g) (hg : g.Coherent) (hwf : g.WellFormed)
    (hr : g.RelatedAlike) (hns : settings.PlainNamespace) :
    R.Known settings (Lineage.regenerating g (.written (R.records settings g) cs)) :=
  known_of_undisputed h hg hwf.toReadable hns (fun c hc _ => hwf.package c hc) fun _ _ hm hs =>
    SoundOn.undisputed h hg hwf.toReadable hr ((Session.mem_writtenMethods hg).1 hm).2.1 hs

end Roster

namespace Session

variable {μ : Type} {settings : Settings} {l : Lineage} {policy : Policy μ} {R : Roster}

/-- What a run gives is the records of a sound roster, if all choices of the policy had the
marker. -/
theorem exists_sound_roster {counters : List (Category × Nat)} {memory memory' : μ}
    {s' : Session} {out : Generated} (hg : l.graph.Coherent) (hwf : l.graph.WellFormed)
    (hincludes : settings.includes = []) (hchain : l.chain.Clean)
    (hrun : (applyCounters { settings, lineage := l } counters).generate policy memory =
      (.ok out, s', memory'))
    (hchoices : ((applyCounters { settings, lineage := l } counters).asked policy memory).Marked) :
    ∃ R : Roster, ∃ n' : Naming, R.Sound settings l.graph ∧
      out = result n' (R.records settings l.graph) := by
  have hclean := hwf.toCleanNames
  obtain ⟨classes, houtcome, _, hmarked, rfl⟩ := exists_outcome hg hclean hchain hrun
  have hall := included_of_nil settings hincludes l.graph
  have hsound := houtcome.soundOn hg hchain hclean hwf.keysDistinct (hmarked hchoices)
  rw [hall] at hsound ⊢
  rw [Roster.recordsOn_all]
  exact ⟨l.roster s'.naming classes, s'.naming, hsound, rfl⟩

/-- A run in which all is known gives the records of the roster, and changes no counter. -/
theorem generate_known (h : R.Known settings l) (hg : l.graph.Coherent)
    (hincludes : settings.includes = []) (counters : List (Category × Nat)) (policy : Policy μ)
    (memory : μ) :
    ∃ out s', (applyCounters { settings, lineage := l } counters).generate policy memory =
        (.ok out, s', memory) ∧
      out.text = writeSnapshot officialNamespace stableNamespace (R.records settings l.graph ++
        [.verbatim (Counters.setAll {} counters).lines]) ∧
      out.counters = Counters.setAll {} counters ∧ out.freshNames = 0 ∧ out.stats.renamed = 0 ∧
      out.stats.decided = 0 := by
  have hstart : Naming.Follows R (applyCounters { settings, lineage := l } counters).naming
      (applyCounters { settings, lineage := l } counters).naming :=
    ⟨rfl, rfl, rfl, rfl, fun m name hm => by cases hm⟩
  obtain ⟨n', hx, hn'⟩ := gives_allRecords h hg hincludes _ memory hstart
  refine ⟨result n' (R.records settings l.graph), { settings, lineage := l, naming := n' },
    generate_of_exec hx, ?_, ?_, ?_, ?_, ?_⟩
  · unfold result
    rw [hn'.allocator]
    rfl
  · unfold result
    rw [hn'.allocator]
    rfl
  · unfold result
    rw [hn'.allocator]
    rfl
  · unfold result
    rw [hn'.renamed, hn'.tally_renamed]
    rfl
  · unfold result
    rw [hn'.decided]
    rfl

/-- Every output is a fixed point. Whatever a run took its names from, and whatever its
policy chose among marked names: a new session that reads the text back, with its counters
and its store, writes the same text. It does so if the store is that of the same version,
and also if each symbol is its own match in the graph as its own earlier version. Nothing is
allocated or renamed, and no policy is asked. -/
theorem every_output_is_a_fixed_point {source : String} {doc : Document}
    (hload : Graph.ofDocument source doc = .ok l.graph) (hwf : l.graph.WellFormed)
    (hrelated : l.graph.RelatedAlike) (hincludes : settings.includes = [])
    (hns : settings.PlainNamespace) (hchain : l.chain.Clean) {counters : List (Category × Nat)}
    {memory memory' : μ} {s' : Session} {out : Generated}
    (hrun : (applyCounters { settings, lineage := l } counters).generate policy memory =
      (.ok out, s', memory'))
    (hchoices : ((applyCounters { settings, lineage := l } counters).asked policy memory).Marked)
    (hfit : out.counters.Fit) (file : String) :
    ∃ snapshot store, readSnapshot file out.text = .ok snapshot ∧
      stableStore snapshot = .ok store ∧
      ∀ again ∈ [((start settings l.graph).applyCounters snapshot.counters).setCurrent store,
        (((start settings l.graph).applyCounters snapshot.counters).setOldGraph
          l.graph).setEarlier { toOld := .identity, names := store }],
      ∀ {ν : Type} (policy' : Policy ν) (memory : ν), ∃ out' s'',
        again.generate policy' memory = (.ok out', s'', memory) ∧ out'.text = out.text ∧
          out'.counters = out.counters ∧ out'.freshNames = 0 ∧ out'.stats.renamed = 0 ∧
          out'.stats.decided = 0 := by
  have hg := Graph.coherent_of_ofDocument hload
  obtain ⟨R, n', hsound, rfl⟩ := exists_sound_roster hg hwf hincludes hchain hrun hchoices
  have hclean : ∀ r ∈ R.records settings l.graph, r.Clean := fun r hr =>
    hsound.clean_records hg hwf hns hr
  refine ⟨_, _, readSnapshot_text hclean hfit file, ofSnapshot_written _ _, ?_⟩
  rw [counters_written]
  set cs := n'.allocator.counters
  set store := Store.written (R.records settings l.graph) cs
  have hknown : R.Known settings (.regenerating l.graph store) :=
    Roster.known_regenerating hsound hg hwf hrelated hns
  have hagree := Lineage.agree_rederiving hg hwf.keysDistinct store
  intro again hagain ν policy' memory
  obtain ⟨out', s'', hgen, htext, hcounters, hrest⟩ :=
    generate_known hknown hg hincludes cs.toList policy' memory
  rw [setAll_toList] at htext hcounters
  simp only [List.mem_cons, List.not_mem_nil, or_false] at hagain
  rcases hagain with rfl | rfl
  · exact ⟨out', s'', hgen, htext, hcounters, hrest⟩
  · obtain ⟨hout, _, hmemory⟩ := hagree.generate hg settings policy'
      ((start settings l.graph).applyCounters cs.toList).naming memory
    have hparts : ∀ x : Except Problem Generated × Session × ν, x.1 = .ok out' →
        x.2.2 = memory → x = (.ok out', x.2.1, memory) := by
      rintro ⟨_, _, _⟩ rfl rfl
      rfl
    exact ⟨out', _, hparts _ (hout.trans (congrArg Prod.fst hgen))
      (hmemory.trans (congrArg (·.2.2) hgen)), htext, hcounters, hrest⟩

/-- A class with a field and a method, all of them scrambled. -/
def scrambledClass : Document where
  classes := [{
    name := "a"
    fields := [{ name := "b", desc := "I" }]
    methods := [{ name := "x", desc := "()V" }] }]

/-- A new session for this class, in which every class is scrambled. -/
def scrambledSession : Session where
  settings := allScrambled
  lineage.graph := (Graph.ofDocument "" scrambledClass).toOption.getD {}

theorem every_output_is_a_fixed_point_scrambled :
    ∃ out s', (scrambledSession.applyCounters []).generate Policy.fail () = (.ok out, s', ()) ∧
      out.counters.Fit ∧ ∃ snapshot store, readSnapshot "" out.text = .ok snapshot ∧
        stableStore snapshot = .ok store ∧ ∃ out' s'',
          (((start scrambledSession.settings scrambledSession.lineage.graph).applyCounters
            snapshot.counters).setCurrent store).generate Policy.fail () = (.ok out', s'', ()) ∧
          out'.text = out.text := by
  have hload : Graph.ofDocument "" scrambledClass = .ok scrambledSession.lineage.graph := rfl
  have hwf : scrambledSession.lineage.graph.WellFormed := by decide
  have hrelated : scrambledSession.lineage.graph.RelatedAlike := by decide
  have hns : scrambledSession.settings.PlainNamespace := by decide
  have hrun : ((scrambledSession.applyCounters []).generate Policy.fail ()).1.toOption.map
      (·.counters) = some { classes := some 2, fields := some 2, methods := some 2 } := by cbv
  have hasked : (scrambledSession.applyCounters []).asked Policy.fail () = [] := by cbv
  rcases hgen : (scrambledSession.applyCounters []).generate Policy.fail () with ⟨_ | out, s', _⟩
  · rw [hgen] at hrun
    cases hrun
  · rw [hgen] at hrun
    have hcounters : out.counters = { classes := some 2, fields := some 2, methods := some 2 } :=
      Option.some.inj hrun
    have hfit : out.counters.Fit := by
      rw [hcounters]
      decide
    have hmarked : ((scrambledSession.applyCounters []).asked Policy.fail ()).Marked := by
      rw [hasked]
      simp [Talk.Marked]
    obtain ⟨snapshot, store, hread, hstore, hagain⟩ := every_output_is_a_fixed_point hload hwf
      hrelated rfl hns Chain.clean_empty hgen hmarked hfit ""
    obtain ⟨out', s'', hgen', htext, _⟩ := hagain _ List.mem_cons_self Policy.fail ()
    exact ⟨out, s', rfl, hfit, snapshot, store, hread, hstore, out', s'', hgen', htext⟩

end Session

end StableNames
