-- Regeneration under include patterns. Fields and methods keep their names.
-- A renamed class without a record is not known to the next run, which
-- gives it a new number, and with it all that is named after it moves.
import StableNames.Proofs.Session.Echo
import StableNames.Session.Prepare

namespace StableNames

open Naming

namespace Session

/-- The class is named anew when its graph is regenerated: it is lost, or it is renamed and
stands in a class that is. -/
inductive Uprooted (settings : Settings) (g : Graph) : ClassId → Prop
  | lost {c : ClassId} (h : Lost settings g c) : Uprooted settings g c
  | inside {c o : ClassId} (hr : keepsName settings (g.classInfo c) = false)
      (ho : (g.classInfo c).outer? = some o) (h : Uprooted settings g o) : Uprooted settings g c

variable {settings : Settings} {g : Graph} {c o : ClassId}

theorem Uprooted.renamed (h : Uprooted settings g c) :
    keepsName settings (g.classInfo c) = false := by
  cases h with
  | lost h => exact h.1
  | inside hr _ _ => exact hr

/-- Nothing is uprooted unless a class is lost. -/
theorem Uprooted.exists_lost (h : Uprooted settings g c) (hg : g.Coherent)
    (hc : c < g.classCount) : ∃ d < g.classCount, Lost settings g d := by
  induction h with
  | lost h => exact ⟨_, hc, h⟩
  | inside _ ho _ ih => exact ih (Nat.lt_trans (hg.outer_lt _ _ ho) hc)

/-- A class with a record is uprooted with the class that it stands in. -/
theorem uprooted_iff_outer (hr : keepsName settings (g.classInfo c) = false)
    (hi : included settings g c = true) (ho : (g.classInfo c).outer? = some o) :
    Uprooted settings g c ↔ Uprooted settings g o := by
  constructor
  · intro h
    cases h with
    | lost h =>
      rw [h.2] at hi
      cases hi
    | inside _ ho' h =>
      rw [ho] at ho'
      cases ho'
      exact h
  · exact .inside hr ho

/-! ## Targets of two runs -/

variable {l : Lineage} {n n' : Naming} {classes classes' : List String} {cs : Counters}

/-- Behind its surroundings a renamed class has its number, if nothing was known. -/
theorem exists_number_first (h : l.Outcome settings n classes) (hl : l.chain = {})
    (hkeep : settings.keepPackage = false) (hc : c < l.graph.classCount)
    (hr : keepsName settings (l.graph.classInfo c) = false) :
    ∃ k, n.allocator.numbers.get? (.ofClass c) = some (.ofClass, k) ∧
      classes.getD c "" = surroundings settings l.graph classes c ++ Category.ofClass.name k := by
  have hnone : l.chain.lookupClass (l.graph.className c) = none := by
    rw [hl]
    rfl
  obtain ⟨k, hk, hfull⟩ := (h.target c hc).fresh hr hnone
  rw [placeOf_eq hkeep] at hfull
  exact ⟨k, hk, hfull⟩

/-- The target of a class changes if and only if the class is uprooted. -/
theorem target_ne_iff_uprooted (h : l.Outcome settings n classes) (hl : l.chain = {})
    (hg : l.graph.Coherent) (hns : settings.PlainNamespace) (hkeep : settings.keepPackage = false)
    (hsound : (l.roster n classes).SoundOn settings l.graph (included settings l.graph))
    (h' : ((l.roster n classes).rerun settings l.graph n.allocator.counters).Outcome settings n'
      classes')
    (htidy : n.allocator.Tidy cs) (htidy' : n'.allocator.Tidy n.allocator.counters)
    (hc : c < l.graph.classCount) :
    classes'.getD c "" ≠ classes.getD c "" ↔ Uprooted settings l.graph c := by
  induction c using Nat.strongRecOn with
  | _ c ih =>
    set R := l.roster n classes
    have htarget := h'.target c hc
    rcases hr : keepsName settings (l.graph.classInfo c) with _ | _
    · obtain ⟨k, hk, hfirst⟩ := exists_number_first h hl hkeep hc hr
      rcases hi : included settings l.graph c with _ | _
      · -- a lost class has a number from the counters behind its old one
        obtain ⟨k', hk', hagain⟩ :=
          htarget.fresh hr (lookupClass_rerun_of_not_included hg hc hi)
        refine iff_of_true ?_ (.lost ⟨hr, hi⟩)
        intro heq
        rw [hagain, hfirst] at heq
        obtain rfl := Category.number_eq heq
        obtain ⟨b, hb, hlt⟩ := htidy.lt_counter _ _ _ hk
        have hle := htidy'.first_le _ _ _ hk'
        unfold Counters.next at hle
        rw [hb, Option.getD_some] at hle
        omega
      · have hagain : classes'.getD c "" = placeLike (classes.getD c "")
            (surroundings settings l.graph classes' c) ++ ownPart (classes.getD c "") := by
          have hfull := htarget.adopted hr (lookupClass_rerun hg hc hi)
            ((hsound.target c hc).owns_ownPart hr)
          rw [placeOf_eq hkeep] at hfull
          exact hfull
        have hdollar := Category.dollar_not_mem_name .ofClass k
        rcases ho : (l.graph.classInfo c).outer? with _ | o
        · -- behind the namespace the whole target is adopted
          rw [surroundings_of_outermost _ ho] at hfirst
          have hplain : '$' ∉ (classes.getD c "").toList := by
            rw [hfirst, String.toList_append, List.mem_append, not_or]
            exact ⟨hns.no_dollar, hdollar⟩
          rw [placeLike_of_plain hplain, ownPart_of_plain hplain, String.empty_append] at hagain
          refine iff_of_false (fun hne => hne hagain) ?_
          intro hup
          cases hup with
          | lost hlost =>
            rw [hlost.2] at hi
            cases hi
          | inside _ ho' _ =>
            rw [ho] at ho'
            cases ho'
        · -- behind the class around it only the own part is adopted
          have hlt := hg.outer_lt c o ho
          rw [surroundings_of_nested _ ho] at hfirst hagain
          rw [hfirst, placeLike_nested, ownPart_nested _ hdollar] at hagain
          rw [uprooted_iff_outer hr hi ho, ← ih o hlt (Nat.lt_trans hlt hc), hagain, hfirst]
          simp [← String.toList_inj]
    · have hsame := ((h.target c hc).kept hr).trans (htarget.kept hr).symm
      refine iff_of_false (fun hne => hne hsame.symm) ?_
      intro hup
      rw [hup.renamed] at hr
      cases hr

/-- A run that echoes a roster hands out names if and only if a class is lost. -/
theorem allocated_eq_zero_iff {R : Roster}
    (hn : Echoes R settings g { allocator := { counters := cs } } n)
    (h : (R.rerun settings g cs).Outcome settings n classes) (hg : g.Coherent) :
    n.allocator.allocated = 0 ↔ ∀ c < g.classCount, ¬ Lost settings g c := by
  constructor
  · rintro hzero c hc ⟨hr, hi⟩
    obtain ⟨k, hk, _⟩ := (h.target c hc).fresh hr (lookupClass_rerun_of_not_included hg hc hi)
    have hempty : n.allocator.numbers.entries = [] := List.length_eq_zero_iff.1 hzero
    unfold Assoc.get? at hk
    rw [hempty] at hk
    cases hk
  · intro hnone
    rw [hn.allocator hnone]
    rfl

/-- Regeneration under include patterns. The records of fields and methods stay as they are,
and so does the target of every class that is not uprooted; all other targets change. A name
is handed out if and only if a class is lost, and if none is the text is the same. -/
theorem regenerating_moves_what_is_uprooted {μ : Type} {policy : Policy μ} {source : String}
    {doc : Document} (hload : Graph.ofDocument source doc = .ok g) (hread : g.Readable)
    (hrelated : g.RelatedAlike) (hns : settings.PlainNamespace)
    (hkeep : settings.keepPackage = false) {counters : List (Category × Nat)}
    {memory memory' : μ} {s' : Session} {out : Generated}
    (hrun : ((start settings g).applyCounters counters).generate policy memory =
      (.ok out, s', memory')) (hfit : out.counters.Fit) (file : String) :
    ∃ targets members snapshot store,
      out.text = textOf (recordsWith settings g targets members) out.counters ∧
      readSnapshot file out.text = .ok snapshot ∧ stableStore snapshot = .ok store ∧
      ∀ {ν : Type} (policy' : Policy ν) (memory : ν), ∃ out' s'' targets',
        (((start settings g).applyCounters snapshot.counters).setCurrent store).generate policy'
          memory = (.ok out', s'', memory) ∧
        out'.text = textOf (recordsWith settings g targets' members) out'.counters ∧
        out'.stats.renamed = 0 ∧ out'.stats.decided = 0 ∧
        (∀ c < g.classCount, targets'.getD c "" ≠ targets.getD c "" ↔ Uprooted settings g c) ∧
        (out'.freshNames = 0 ↔ ∀ c < g.classCount, ¬ Lost settings g c) ∧
        ((∀ c < g.classCount, ¬ Lost settings g c) → out'.text = out.text) := by
  have hg := Graph.coherent_of_ofDocument hload
  obtain ⟨classes, houtcome, htidy, hsound, rfl⟩ :=
    @exists_first_outcome μ settings policy { graph := g } counters memory memory' s' out hg hread
      rfl hrun
  set R := Lineage.roster { graph := g } s'.naming classes
  set cs := s'.naming.allocator.counters
  have hclean : ∀ r ∈ R.recordsOn settings g (included settings g), r.Clean := fun r hr =>
    hsound.toWellMade.clean_records hg hread.toCleanNames hns.unbroken hr
  have hrecords : R.recordsOn settings g (included settings g) =
      recordsWith settings g classes (R.memberRecords settings g) :=
    @recordsOn_eq_recordsWith g R R settings fun _ _ _ => rfl
  refine ⟨classes, R.memberRecords settings g, _, _, congrArg (textOf · cs) hrecords,
    readSnapshot_text hclean hfit file, ofSnapshot_written _ _, ?_⟩
  rw [counters_written]
  intro ν policy' memory
  have hundisputed : ∀ c m, Resolves settings g c m →
      R.Undisputed settings g (included settings g) m := by
    intro c m hm
    obtain ⟨_, hlt, _⟩ := (mem_writtenMethods hg).1 hm.2.1
    exact hsound.undisputed hg hread hrelated hlt hm.2.2
  obtain ⟨s'', classes', hgen, hecho, houtcome', htidy'⟩ :=
    exists_echo hsound hg hread hclean hundisputed cs policy' memory
  have huprooted := fun c hc => @target_ne_iff_uprooted settings c { graph := g } s'.naming
    s''.naming classes classes' _ houtcome rfl hg hns hkeep hsound houtcome' htidy htidy' hc
  refine ⟨_, s'', classes', hgen, rfl, ?_, ?_, huprooted,
    allocated_eq_zero_iff hecho houtcome' hg, ?_⟩
  · unfold result
    simp only [hecho.renamed, hecho.tally_renamed]
  · unfold result
    simp only [hecho.decided]
  · intro hnone
    have hsame : ∀ c < g.classCount, classes'.getD c "" = classes.getD c "" := by
      intro c hc
      by_contra hne
      obtain ⟨d, hd, hlost⟩ := ((huprooted c hc).1 hne).exists_lost hg hc
      exact hnone d hd hlost
    have hcounters : s''.naming.allocator.counters = cs := by rw [hecho.allocator hnone]
    change textOf _ s''.naming.allocator.counters = textOf _ cs
    rw [recordsWith_congr hsame, hcounters, hrecords]

/-- A class with a class inside it. -/
def nestedClass : Document where
  classes := [{ name := "a", inner := [{ name := "a$1" }] }]

/-- A new session for it, in which only nested classes are written. -/
def nestedSession : Session where
  settings := { Settings.default with includes := (Pattern.anywhere? "\\$").toList }
  lineage.graph := (Graph.ofDocument "" nestedClass).toOption.getD {}

/-- The class outside is lost, so the class inside it is uprooted. -/
theorem regenerating_moves_what_is_uprooted_nested :
    ∃ out s' targets members snapshot store out' s'' targets',
      (nestedSession.applyCounters []).generate Policy.fail () = (.ok out, s', ()) ∧
      out.text = textOf (recordsWith nestedSession.settings nestedSession.lineage.graph targets
        members) out.counters ∧
      readSnapshot "" out.text = .ok snapshot ∧ stableStore snapshot = .ok store ∧
      (((start nestedSession.settings nestedSession.lineage.graph).applyCounters
        snapshot.counters).setCurrent store).generate Policy.fail () = (.ok out', s'', ()) ∧
      out'.text = textOf (recordsWith nestedSession.settings nestedSession.lineage.graph targets'
        members) out'.counters ∧
      targets'.getD 1 "" ≠ targets.getD 1 "" ∧ out'.freshNames ≠ 0 := by
  have hload : Graph.ofDocument "" nestedClass = .ok nestedSession.lineage.graph := rfl
  have hread : nestedSession.lineage.graph.Readable := by decide
  have hrelated : nestedSession.lineage.graph.RelatedAlike := by decide
  have hns : nestedSession.settings.PlainNamespace := by decide
  have hlost : Lost nestedSession.settings nestedSession.lineage.graph 0 := by decide +kernel
  have hinner : keepsName nestedSession.settings (nestedSession.lineage.graph.classInfo 1) =
      false := by decide +kernel
  have hcounters : ((nestedSession.applyCounters []).generate Policy.fail ()).1.toOption.map
      (·.counters) = some { classes := some 3 } := by decide +kernel
  obtain ⟨out, s', hrun⟩ : ∃ out s',
      (nestedSession.applyCounters []).generate Policy.fail () = (.ok out, s', ()) :=
    @exists_generated Unit nestedSession.lineage nestedSession.settings rfl [] Policy.fail ()
  have hfit : out.counters.Fit := by
    rw [hrun] at hcounters
    rw [show out.counters = { classes := some 3 } from Option.some.inj hcounters]
    decide
  obtain ⟨targets, members, snapshot, store, htext, hsnapshot, hstore, hagain⟩ :=
    regenerating_moves_what_is_uprooted hload hread hrelated hns rfl hrun hfit ""
  obtain ⟨out', s'', targets', hgen, htext', _, _, hmoved, hfresh, _⟩ := hagain Policy.fail ()
  refine ⟨out, s', targets, members, snapshot, store, out', s'', targets', hrun, htext, hsnapshot,
    hstore, hgen, htext', ?_, ?_⟩
  · exact (hmoved 1 (by decide)).2 (.inside hinner rfl (.lost hlost))
  · intro hzero
    exact hfresh.1 hzero 0 (by decide) hlost

end Session

end StableNames
