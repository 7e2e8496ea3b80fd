-- A text against itself. A method whose name is not scrambled is written
-- under its own name, and it can be in one family with methods that are.
-- Then the family has two names in the text, and a run that reads the text
-- back and takes no decision ends in a conflict. Nothing else can fail.
import StableNames.Proofs.Session.Echo
import StableNames.Proofs.Session.FixedPoint

namespace StableNames

open Naming

/-- There are records of two methods of one family, one of them scrambled, with different
targets. -/
def Graph.Contested (g : Graph) (s : Snapshot) : Prop :=
  ∃ m < g.methodCount, isScrambledMethod (g.method m).name = true ∧ ∃ k, g.Akin m k ∧
    ∃ target target', target ≠ target' ∧
      ⟨g.className (g.method m).owner, (g.method m).desc, [(g.method m).name, target]⟩ ∈ s.methods ∧
      ⟨g.className (g.method k).owner, (g.method k).desc, [(g.method k).name, target']⟩ ∈ s.methods

namespace Roster

variable {g : Graph} {R : Roster} {settings : Settings} {p : ClassId → Bool} {cs : Counters}
  {m : MethodId} {target : String}

theorem mem_methods_recordsOn (hg : g.Coherent) (hread : g.Readable) (hm : m < g.methodCount) :
    ⟨g.className (g.method m).owner, (g.method m).desc, [(g.method m).name, target]⟩ ∈
        (Snapshot.written (R.recordsOn settings g p) cs).methods ↔
      Writes settings g p m ∧ target = R.methodName g m := by
  rw [mem_methods_written]
  constructor
  · rintro ⟨_, _, _, _, h, heq⟩
    cases heq
    obtain ⟨hp, hw, rfl⟩ := (mem_recordsOn_method hg hread.toSignaturesApart hm).1 h
    exact ⟨⟨hp, hw⟩, rfl⟩
  · rintro ⟨⟨hp, hw⟩, rfl⟩
    exact ⟨_, _, _, _, (mem_recordsOn_method hg hread.toSignaturesApart hm).2 ⟨hp, hw, rfl⟩, rfl⟩

/-- The records are contested if and only if a method that is written has a dispute. -/
theorem contested_recordsOn (hg : g.Coherent) (hread : g.Readable) :
    g.Contested (.written (R.recordsOn settings g p) cs) ↔
      ∃ m < g.methodCount, Writes settings g p m ∧ isScrambledMethod (g.method m).name = true ∧
        ¬ R.Undisputed settings g p m := by
  constructor
  · rintro ⟨m, hm, hs, k, hmk, target, target', hne, hmem, hmem'⟩
    have hk := hmk.lt hg hread.keysDistinct hm
    obtain ⟨hw, rfl⟩ := (mem_methods_recordsOn hg hread hm).1 hmem
    obtain ⟨hw', rfl⟩ := (mem_methods_recordsOn hg hread hk).1 hmem'
    refine ⟨m, hm, hw, hs, ?_⟩
    intro hu
    rw [methodName, if_pos hs] at hne
    exact hne (hu k hmk hw').symm
  · rintro ⟨m, hm, hw, hs, hu⟩
    unfold Undisputed at hu
    push Not at hu
    obtain ⟨k, hmk, hw', hne⟩ := hu
    have hk := hmk.lt hg hread.keysDistinct hm
    refine ⟨m, hm, hs, k, hmk, _, _, ?_, (mem_methods_recordsOn hg hread hm).2 ⟨hw, rfl⟩,
      (mem_methods_recordsOn hg hread hk).2 ⟨hw', rfl⟩⟩
    rw [show R.methodName g m = R.method m by rw [methodName, if_pos hs]]
    exact hne.symm

end Roster

namespace Session

variable {μ : Type} {g : Graph} {R : Roster} {settings : Settings} {cs : Counters}
  {policy : Policy μ}

theorem not_contested_iff (hg : g.Coherent) (hread : g.Readable) :
    ¬ g.Contested (.written (R.recordsOn settings g (included settings g)) cs) ↔
      ∀ c ∈ g.classIds, ∀ m, Resolves settings g c m →
        R.Undisputed settings g (included settings g) m := by
  rw [Roster.contested_recordsOn hg hread]
  constructor
  · rintro h c _ m ⟨hi, hw, hs⟩
    obtain ⟨_, hlt, rfl, _⟩ := (mem_writtenMethods hg).1 hw
    by_contra hu
    exact h ⟨m, hlt, ⟨hi, hw⟩, hs, hu⟩
  · rintro h ⟨m, hlt, ⟨hi, hw⟩, hs, hu⟩
    have hids : (g.method m).owner ∈ g.classIds := Graph.mem_classIds.2 (hg.owner_lt m hlt)
    exact hu (h _ hids m ⟨hi, hw, hs⟩)

/-- Where the records are contested, a run that takes no decision ends in a conflict. -/
theorem rerun_of_contested (h : R.SoundOn settings g (included settings g)) (hg : g.Coherent)
    (hread : g.Readable)
    (hc : g.Contested (.written (R.recordsOn settings g (included settings g)) cs)) :
    ∃ symbol names s', (rerunSession R settings g cs).generate Policy.fail () =
        (.error (.conflict symbol names), s', ()) ∧
      s'.naming.renamed = 0 ∧ s'.naming.tally.renamed = 0 := by
  have hattempts := @attemptable_echo Unit g R settings cs { allocator := { counters := cs } }
    Policy.fail h hg hread (R.Undisputed settings g (included settings g)) fun c m hm =>
      attempts_resolve_fail h hg hread hm
  obtain ⟨n', hn', ⟨hall, _⟩ | ⟨_, symbol, names, _, hx⟩⟩ :=
    hattempts.allRecords _ () (echoes_start R settings g cs)
  · exact absurd hc ((not_contested_iff hg hread).2 hall)
  · exact ⟨symbol, names, _, generate_of_exec_error hx, hn'.renamed, hn'.tally_renamed⟩

/-- Where they are not, the store knows every symbol. -/
theorem known_of_not_contested (h : R.SoundOn settings g (included settings g)) (hg : g.Coherent)
    (hread : g.Readable) (hincludes : settings.includes = []) (hns : settings.PlainNamespace)
    (hpackage : ∀ c < g.classCount, settings.keepPackage = true →
      '$' ∉ (packageOf (g.className c)).toList)
    (hc : ¬ g.Contested (.written (R.recordsOn settings g (included settings g)) cs)) :
    R.Known settings (.regenerating g (.written (R.records settings g) cs)) := by
  have hall := (not_contested_iff hg hread).1 hc
  have hincluded := included_of_nil settings hincludes g
  rw [hincluded] at h hall
  refine Roster.known_of_undisputed h hg hread hns hpackage ?_
  intro c m hw hs
  have hids : c ∈ g.classIds := by
    obtain ⟨_, hlt, rfl, _⟩ := (mem_writtenMethods hg).1 hw
    exact Graph.mem_classIds.2 (hg.owner_lt m hlt)
  exact hall c hids m ⟨congrFun hincluded c, hw, hs⟩

/-- A text is refused if and only if it is contested. Let a first run have written it, and let
a new session read it back and refuse all conflicts. If the records are contested it ends in
a conflict, and else it writes the same text again. In neither case does it give up a name. -/
theorem text_is_refused_iff_contested {source : String} {doc : Document}
    (hload : Graph.ofDocument source doc = .ok g) (hread : g.Readable)
    (hincludes : settings.includes = []) (hns : settings.PlainNamespace)
    (hpackage : ∀ c < g.classCount, settings.keepPackage = true →
      '$' ∉ (packageOf (g.className c)).toList) {counters : List (Category × Nat)}
    {memory memory' : μ} {s' : Session} {out : Generated}
    (hrun : ((start settings g).applyCounters counters).generate policy memory =
      (.ok out, s', memory')) (hfit : out.counters.Fit) (file : String) :
    ∃ snapshot store, readSnapshot file out.text = .ok snapshot ∧
      stableStore snapshot = .ok store ∧
      (g.Contested snapshot → ∃ symbol names s'', (((start settings g).applyCounters
          snapshot.counters).setCurrent store).generate Policy.fail () =
            (.error (.conflict symbol names), s'', ()) ∧
        s''.naming.renamed = 0 ∧ s''.naming.tally.renamed = 0) ∧
      (¬ g.Contested snapshot → ∃ out' s'', (((start settings g).applyCounters
          snapshot.counters).setCurrent store).generate Policy.fail () = (.ok out', s'', ()) ∧
        out'.text = out.text ∧ out'.counters = out.counters ∧ out'.freshNames = 0 ∧
        out'.stats.renamed = 0) := by
  have hg := Graph.coherent_of_ofDocument hload
  obtain ⟨classes, _, _, hsound, rfl⟩ :=
    @exists_first_outcome μ settings policy { graph := g } counters memory memory' s' out hg hread
      rfl hrun
  set R := Lineage.roster { graph := g } s'.naming classes
  set cs := s'.naming.allocator.counters
  have hclean : ∀ r ∈ R.recordsOn settings g (included settings g), r.Clean := fun r hr =>
    hsound.toWellMade.clean_records hg hread.toCleanNames hns.unbroken hr
  refine ⟨_, _, readSnapshot_text hclean hfit file, ofSnapshot_written _ _, ?_, ?_⟩
  · intro hc
    rw [counters_written]
    exact rerun_of_contested hsound hg hread hc
  · intro hc
    have hknown := known_of_not_contested hsound hg hread hincludes hns hpackage hc
    obtain ⟨out', s'', hgen, htext, hcounters, hfresh, hrenamed, _⟩ :=
      generate_known hknown hg hincludes cs.toList Policy.fail ()
    rw [setAll_toList] at htext hcounters
    rw [counters_written]
    change ∃ out' s'', _ ∧ _ = textOf (R.recordsOn settings g (included settings g)) cs ∧ _
    rw [Roster.recordsOn_included R hincludes]
    exact ⟨out', s'', hgen, htext, hcounters, hfresh, hrenamed⟩

/-- A new session for a class with a bridge, in which every class is scrambled. -/
def bridgedSession : Session where
  settings := allScrambled
  lineage.graph := (Graph.ofDocument "" bridgedClass).toOption.getD {}

/-- The bridge is `method_1` in the text and its target is `tick`. -/
theorem text_is_refused_iff_contested_bridged :
    ∃ out s' snapshot store symbol names s'',
      (bridgedSession.applyCounters []).generate Policy.fail () = (.ok out, s', ()) ∧
      readSnapshot "" out.text = .ok snapshot ∧ stableStore snapshot = .ok store ∧
      (((start bridgedSession.settings bridgedSession.lineage.graph).applyCounters
        snapshot.counters).setCurrent store).generate Policy.fail () =
          (.error (.conflict symbol names), s'', ()) := by
  have hload : Graph.ofDocument "" bridgedClass = .ok bridgedSession.lineage.graph := rfl
  have hread : bridgedSession.lineage.graph.Readable := by decide
  have hns : bridgedSession.settings.PlainNamespace := by decide
  have hran : ((bridgedSession.applyCounters []).generate Policy.fail ()).1.toOption.map
      (fun out => (out.text, out.counters)) = some (textOf [.ofClass "a" "net/minecraft/class_1",
        .ofMethod "a" "()V" "a" "method_1", .ofMethod "a" "()V" "tick" "tick"]
        { classes := some 2, methods := some 2 }, { classes := some 2, methods := some 2 }) := by
    cbv
  obtain ⟨out, s', hrun⟩ : ∃ out s',
      (bridgedSession.applyCounters []).generate Policy.fail () = (.ok out, s', ()) :=
    @exists_generated Unit bridgedSession.lineage bridgedSession.settings rfl [] Policy.fail ()
  rw [hrun] at hran
  obtain ⟨htext, hcounters⟩ := Prod.mk.inj (Option.some.inj hran)
  have hfit : out.counters.Fit := by
    rw [hcounters]
    decide
  obtain ⟨snapshot, store, hsnapshot, hstore, hcontested, _⟩ :=
    text_is_refused_iff_contested hload hread rfl hns (fun _ _ hkeep => by cases hkeep) hrun hfit ""
  have hc : bridgedSession.lineage.graph.Contested snapshot := by
    rw [htext, readSnapshot_textOf (by decide) (by decide)] at hsnapshot
    cases hsnapshot
    have hakin : bridgedSession.lineage.graph.Akin 0 1 := .single (.inr (by decide +kernel))
    exact ⟨0, by decide, by decide, 1, hakin, "method_1", "tick", by decide, by decide, by decide⟩
  obtain ⟨symbol, names, s'', hgen, _⟩ := hcontested hc
  exact ⟨out, s', snapshot, store, symbol, names, s'', hrun, hsnapshot, hstore, hgen⟩

end Session

end StableNames
