-- A run with the store of its own records, step by step. It gives up no
-- name. It hands out names only to classes that are renamed but have no
-- record, and it names only families of which all records agree. So it
-- can fail only where a family has records that do not.
import StableNames.Proofs.Session.Regeneration

namespace StableNames

open Naming

namespace Session

/-- The class gets a new name, but no record of it. -/
def Lost (settings : Settings) (g : Graph) (c : ClassId) : Prop :=
  keepsName settings (g.classInfo c) = false ∧ included settings g c = false

instance (settings : Settings) (g : Graph) (c : ClassId) : Decidable (Lost settings g c) :=
  inferInstanceAs (Decidable (_ ∧ _))

end Session

/-- All that is known in a run with the store of the records of the roster. -/
def Roster.rerun (R : Roster) (settings : Settings) (g : Graph) (cs : Counters) : Lineage :=
  .regenerating g (.written (R.recordsOn settings g (Session.included settings g)) cs)

/-- Between the states no name was given up and no policy decided. Nothing was allocated if no
class is lost, and all methods that have a name are in families without a dispute and have
the name of the roster. -/
structure Naming.Echoes (R : Roster) (settings : Settings) (g : Graph) (n₀ n : Naming) :
    Prop where
  renamed : n.renamed = n₀.renamed
  tally_renamed : n.tally.renamed = n₀.tally.renamed
  decided : n.tally.decided = n₀.tally.decided
  sorted : n.allocator.Sorted
  allocator : (∀ c < g.classCount, ¬ Session.Lost settings g c) → n.allocator = n₀.allocator
  resolved : ∀ m name, n.resolved.get? m = some name → name = R.method m ∧
    m < g.methodCount ∧ R.Undisputed settings g (Session.included settings g) m

namespace Session

variable {μ : Type} {g : Graph} {R : Roster} {settings : Settings} {cs : Counters}
  {n₀ : Naming} {c : ClassId} {f : FieldId} {m : MethodId} {policy : Policy μ}

theorem steady_echoes : Steady (Echoes R settings g n₀) where
  count _ _ hr hd hn :=
    ⟨hn.renamed, hr.trans hn.tally_renamed, hd.trans hn.decided, hn.sorted, hn.allocator,
      hn.resolved⟩
  report _ _ hn :=
    ⟨hn.renamed, hn.tally_renamed, hn.decided, hn.sorted, hn.allocator, hn.resolved⟩

/-! ## First runs -/

/-- What a run without earlier names comes to. Its roster is sound for all classes that are
written. -/
theorem exists_first_outcome {l : Lineage} {counters : List (Category × Nat)}
    {memory memory' : μ} {s' : Session} {out : Generated} (hg : l.graph.Coherent)
    (hread : l.graph.Readable) (hl : l.chain = {})
    (hrun : (applyCounters { settings, lineage := l } counters).generate policy memory =
      (.ok out, s', memory')) :
    ∃ classes, l.Outcome settings s'.naming classes ∧
      s'.naming.allocator.Tidy (Counters.setAll {} counters) ∧
      (l.roster s'.naming classes).SoundOn settings l.graph (included settings l.graph) ∧
      out = result s'.naming
        ((l.roster s'.naming classes).recordsOn settings l.graph (included settings l.graph)) := by
  have hchain : l.chain.Clean := by
    rw [hl]
    exact Chain.clean_empty
  obtain ⟨classes, houtcome, htidy, hmarked, hout⟩ :=
    exists_outcome hg hread.toCleanNames hchain hrun
  refine ⟨classes, houtcome, htidy, ?_, hout⟩
  apply houtcome.soundOn hg hchain hread.toCleanNames hread.keysDistinct
  apply hmarked
  rw [asked_of_empty_chain settings hl]
  simp [Talk.Marked]

/-! ## Classes -/

/-- The own part of a target carries the marker. -/
theorem GoodTarget.owns_ownPart {around full : String}
    (h : GoodTarget settings g c around full)
    (hkeep : keepsName settings (g.classInfo c) = false) :
    Category.ofClass.owns (ownPart full) = true := by
  obtain ⟨place, own, rfl, _, howns, hdollar, _⟩ := h.renamed hkeep
  obtain ⟨place', hpart⟩ := exists_ownPart_append (placeOf settings (g.className c) place) hdollar
  rw [hpart]
  exact Category.owns_append place' howns

/-- A class with a record is known under its target. -/
theorem lookupClass_rerun (hg : g.Coherent) (hc : c < g.classCount)
    (hi : included settings g c = true) :
    (R.rerun settings g cs).chain.lookupClass (g.className c) = some (R.target c) := by
  have hknown := @Roster.lookupClass_recordsOn g R settings _ cs c hg hc hi
  rw [← Lineage.lookupClass_regenerating] at hknown
  exact hknown

/-- Nothing is known of a class without a record. -/
theorem lookupClass_rerun_of_not_included (hg : g.Coherent) (hc : c < g.classCount)
    (hi : included settings g c = false) :
    (R.rerun settings g cs).chain.lookupClass (g.className c) = none := by
  rw [Option.eq_none_iff_forall_ne_some]
  intro target h
  rw [Roster.rerun, Lineage.lookupClass_regenerating] at h
  obtain ⟨d, hd, hid, hname, _⟩ := Roster.mem_recordsOn_ofClass.1 (mem_of_lookupClass h)
  rw [← hg.className_inj hc hd hname, hi] at hid
  cases hid

variable (h : R.SoundOn settings g (included settings g)) (hg : g.Coherent)

include h hg

theorem exists_classTarget_echo (hc : c ∈ g.classIds) (around : String) {n : Naming}
    (hn : Echoes R settings g n₀ n) :
    ∃ t n', (classTarget settings (R.rerun settings g cs) c around).exec n = (.ok t, n') ∧
      Echoes R settings g n₀ n' := by
  have hlt : c < g.classCount := Graph.mem_classIds.1 hc
  rcases hkeep : keepsName settings (g.classInfo c) with _ | _
  · rcases hi : included settings g c with _ | _
    · have hnone := @lookupClass_rerun_of_not_included g R settings cs c hg hlt hi
      obtain ⟨t, name, a, hx, _, ha⟩ :=
        @exec_classTarget_unknown settings (R.rerun settings g cs) c n hn.sorted hkeep hnone around
      exact ⟨t, _, hx, hn.renamed, hn.tally_renamed, hn.decided, ha,
        fun hlost => absurd ⟨hkeep, hi⟩ (hlost c hlt), hn.resolved⟩
    · have hknown := @lookupClass_rerun g R settings cs c hg hlt hi
      have howns := (h.target c hlt).owns_ownPart hkeep
      have hx := @exec_classTarget_adopted settings (R.rerun settings g cs) c hkeep _ hknown howns
        around n
      exact ⟨_, n, hx, hn⟩
  · have hx := @exec_classTarget_kept settings (R.rerun settings g cs) c hkeep around n
    exact ⟨_, n, hx, hn⟩

/-! ## Methods -/

variable (hread : g.Readable)

include hread

theorem attempts_resolve_undisputed (hm : Resolves settings g c m)
    (hu : R.Undisputed settings g (included settings g) m) :
    Attempts (Echoes R settings g n₀) True (resolve (R.rerun settings g cs) policy c m) := by
  obtain ⟨hi, hw, hs⟩ := hm
  obtain ⟨_, hlt, rfl, _⟩ := (mem_writtenMethods hg).1 hw
  have hk := hread.keysDistinct
  obtain ⟨origins, hcandidates⟩ :=
    @Roster.candidates_of_undisputed g R settings _ cs m hg hread hlt ⟨hi, hw⟩ hu
  have hakin : ∀ k ∈ m :: g.family (g.method m).owner m, g.Akin m k := by
    intro k hmem
    rcases List.mem_cons.1 hmem with rfl | hmem
    · exact .refl
    · exact (Graph.mem_family hg hk hlt).1 hmem
  have hfamily : ∀ k ∈ m :: g.family (g.method m).owner m, R.method k = R.method m := fun k hmem =>
    h.family m hlt k ((Graph.mem_family hg hk hlt).2 (hakin k hmem))
  intro n memory hn
  obtain ⟨methods, hsub, hx⟩ := exec_resolve_adopted hcandidates
    (h.owns_method _ hi m hw hs) hfamily (fun k name hname => (hn.resolved k name hname).1) memory
  refine ⟨_, ?_, .inl ⟨trivial, _, hx⟩⟩
  refine ⟨hn.renamed, hn.tally_renamed, hn.decided, hn.sorted, hn.allocator, ?_⟩
  intro k name hname
  unfold withNames at hname
  rw [Assoc.get?_insertAll] at hname
  split at hname
  · rename_i hmem
    cases hname
    have hmk := hakin k (hsub k hmem)
    exact ⟨(hfamily k (hsub k hmem)).symm, hmk.lt hg hk hlt, hu.akin hg hread h.family hlt hmk⟩
  · exact hn.resolved k name hname

/-- A family with a dispute is refused. -/
theorem attempts_resolve_fail (hm : Resolves settings g c m) :
    Attempts (Echoes R settings g n₀) (R.Undisputed settings g (included settings g) m)
      (resolve (R.rerun settings g cs) Policy.fail c m) := by
  by_cases hu : R.Undisputed settings g (included settings g) m
  · exact (attempts_resolve_undisputed h hg hread hm hu).congr (iff_of_true trivial hu)
  · obtain ⟨hi, hw, hs⟩ := hm
    obtain ⟨_, hlt, rfl, _⟩ := (mem_writtenMethods hg).1 hw
    have hk := hread.keysDistinct
    have hmany := @Roster.candidates_of_disputed g R settings _ cs m hg hread hlt ⟨hi, hw⟩ hs hu
    intro n memory hn
    have hcall := call_of_resolve (R.rerun settings g cs) Policy.fail (g.method m).owner m n memory
    rcases hx : (resolve (R.rerun settings g cs) Policy.fail (g.method m).owner m).exec
      (n, memory) with ⟨answer, n', memory'⟩
    rw [hx] at hcall
    cases hcall with
    | known hname => exact absurd (hn.resolved m _ hname).2.2 hu
    | inherited _ hf hname =>
      obtain ⟨_, hkt, huk⟩ := hn.resolved _ _ hname
      have hmk := (Graph.mem_family hg hk hlt).1 hf
      exact absurd (huk.akin hg hread h.family hkt (hmk.symm hg hk hlt)) hu
    | @settled candidate? _ _ _ hc =>
      have hone := congrArg List.length hc
      have hle : candidate?.toList.length ≤ 1 := by cases candidate? <;> simp
      exact absurd (hone ▸ hmany) (by omega)
    | @undecided _ log _ _ hd =>
      cases hd
      exact ⟨{ n with log }, ⟨hn.renamed, hn.tally_renamed, hn.decided, hn.sorted, hn.allocator,
        hn.resolved⟩, .inr ⟨hu, _, _, _, rfl⟩⟩
    | misplaced _ _ hd => cases hd
    | decided _ _ hd => cases hd

/-! ## The whole run -/

theorem attemptable_echo {P : MethodId → Prop}
    (hmethods : ∀ c m, Resolves settings g c m → Attempts (Echoes R settings g n₀) (P m)
      (resolve (R.rerun settings g cs) policy c m)) :
    Attemptable (Echoes R settings g n₀) P settings (R.rerun settings g cs) policy where
  toSteady := steady_echoes
  target _ hc around _ hn := exists_classTarget_echo h hg hc around hn
  field c _ hi f hf hs n hn := by
    obtain ⟨earlier, hl, ho, _⟩ := Roster.knownField_regenerating h hg hread hi hf hs
    exact ⟨_, n, exec_fieldName_adopted hl ho n, hn⟩
  method c _ m hm := hmethods c m hm

end Session

/-! ## Records of the same members -/

namespace Roster

/-- The records of the members of a class. -/
def memberRecords (R : Roster) (settings : Settings) (g : Graph) (c : ClassId) : List Record :=
  (Session.writtenFields settings c g).map (R.fieldRecord g c) ++
    (Session.writtenMethods settings c g).map (R.methodRecord g c)

end Roster

/-- The records of the classes that are written, with these targets and the records of their
members. -/
def recordsWith (settings : Settings) (g : Graph) (targets : List String)
    (members : ClassId → List Record) : List Record :=
  (g.classIds.filter (Session.included settings g)).flatMap fun c =>
    .ofClass (g.className c) (targets.getD c "") :: members c

variable {g : Graph} {R R' : Roster} {settings : Settings} {cs : Counters}

theorem recordsOn_eq_recordsWith (h : ∀ c < g.classCount, Session.included settings g c = true →
    R.memberRecords settings g c = R'.memberRecords settings g c) :
    R.recordsOn settings g (Session.included settings g) =
      recordsWith settings g R.classes (R'.memberRecords settings g) := by
  unfold Roster.recordsOn recordsWith
  apply List.flatMap_congr
  intro c hc
  obtain ⟨hids, hi⟩ := List.mem_filter.1 hc
  have hlt : c < g.classCount := Graph.mem_classIds.1 hids
  exact congrArg (Record.ofClass (g.className c) (R.target c) :: ·) (h c hlt hi)

theorem recordsWith_congr {targets targets' : List String} {members : ClassId → List Record}
    (h : ∀ c < g.classCount, targets'.getD c "" = targets.getD c "") :
    recordsWith settings g targets' members = recordsWith settings g targets members := by
  unfold recordsWith
  apply List.flatMap_congr
  intro c hc
  have hlt : c < g.classCount := Graph.mem_classIds.1 (List.mem_filter.1 hc).1
  rw [h c hlt]

/-- In a run that echoes the roster all members that are written have its names. -/
theorem Naming.Echoes.memberRecords_eq {n₀ n : Naming} {classes : List String} {c : ClassId}
    (hn : Echoes R settings g n₀ n) (h : (R.rerun settings g cs).Outcome settings n classes)
    (hsound : R.SoundOn settings g (Session.included settings g)) (hg : g.Coherent)
    (hread : g.Readable) (hc : c < g.classCount) (hi : Session.included settings g c = true) :
    ((R.rerun settings g cs).roster n classes).memberRecords settings g c =
      R.memberRecords settings g c := by
  have hgood := h.members c hc hi
  have hfields : ∀ f ∈ Session.writtenFields settings c g,
      isScrambledField (g.field f).name = true →
        (R.rerun settings g cs).fieldNameIn n f = R.field f := by
    intro f hf hs
    obtain ⟨earlier, hl, ho, hname⟩ :=
      @Roster.knownField_regenerating g R settings _ cs c f hsound hg hread hi hf hs
    have hknown : (R.rerun settings g cs).knownField? f = some (R.field f) := by
      unfold Lineage.knownField?
      exact (congrArg _ hl).trans (congrArg some hname)
    rw [hname] at ho
    exact (Sourced.adopted hknown ho).eq_nameIn.symm
  have hmethods : ∀ m ∈ Session.writtenMethods settings c g,
      isScrambledMethod (g.method m).name = true → (n.resolved.get? m).getD "" = R.method m := by
    intro m hm hs
    obtain ⟨name, hname⟩ := hgood.methods m hm hs
    rw [hname, Option.getD_some]
    exact (hn.resolved m name hname).1
  unfold Roster.memberRecords
  congr 1
  · apply List.map_congr_left
    intro f hf
    unfold Roster.fieldRecord Roster.fieldName
    split
    · exact congrArg _ (hfields f hf ‹_›)
    · rfl
  · apply List.map_congr_left
    intro m hm
    unfold Roster.methodRecord Roster.methodName
    split
    · exact congrArg _ (hmethods m hm ‹_›)
    · rfl

/-! ## The run with the store -/

namespace Session

/-- The new session with the store of the records and with the counters behind them. -/
def rerunSession (R : Roster) (settings : Settings) (g : Graph) (cs : Counters) : Session :=
  applyCounters { settings, lineage := R.rerun settings g cs } cs.toList

theorem naming_rerunSession (R : Roster) (settings : Settings) (g : Graph) (cs : Counters) :
    (rerunSession R settings g cs).naming = { allocator := { counters := cs } } := by
  unfold rerunSession applyCounters Allocator.setCounters
  rw [setAll_toList]

theorem echoes_start (R : Roster) (settings : Settings) (g : Graph) (cs : Counters) :
    Echoes R settings g { allocator := { counters := cs } }
      (rerunSession R settings g cs).naming := by
  rw [naming_rerunSession]
  refine ⟨rfl, rfl, rfl, ?_, fun _ => rfl, ?_⟩
  · intro s category k hk
    cases hk
  · intro m name hm
    cases hm

/-- Without disputes a run with the store of a roster gives the same members their names
again, and changes nothing but targets of classes. -/
theorem exists_echo {μ : Type} (h : R.SoundOn settings g (included settings g))
    (hg : g.Coherent) (hread : g.Readable)
    (hclean : ∀ r ∈ R.recordsOn settings g (included settings g), r.Clean)
    (hundisputed : ∀ c m, Resolves settings g c m → R.Undisputed settings g (included settings g) m)
    (cs : Counters) (policy : Policy μ) (memory : μ) :
    ∃ s' classes, (rerunSession R settings g cs).generate policy memory =
        (.ok (result s'.naming (recordsWith settings g classes (R.memberRecords settings g))), s',
          memory) ∧
      Echoes R settings g { allocator := { counters := cs } } s'.naming ∧
      (R.rerun settings g cs).Outcome settings s'.naming classes ∧
      s'.naming.allocator.Tidy cs := by
  have hruns : Attempts (Echoes R settings g { allocator := { counters := cs } }) True
      (allRecords settings (R.rerun settings g cs) policy) := by
    have hattempts := @attemptable_echo μ g R settings cs { allocator := { counters := cs } } policy
      h hg hread (fun _ => True) fun c m hm =>
        attempts_resolve_undisputed h hg hread hm (hundisputed c m hm)
    exact hattempts.allRecords.congr (by simp)
  obtain ⟨rs, n', hx, hn'⟩ := hruns.exec_eq_ok (echoes_start R settings g cs) memory
  have hgen := @generate_of_exec μ policy (rerunSession R settings g cs) memory memory n' rs hx
  have hchain : (R.rerun settings g cs).chain.Clean := by
    refine ⟨?_, by simp [Roster.rerun, Lineage.regenerating],
      by simp [Roster.rerun, Lineage.regenerating]⟩
    rintro _ ⟨⟩
    exact Store.clean_written hclean
  obtain ⟨classes, houtcome, htidy, _, hout⟩ := @exists_outcome μ settings (R.rerun settings g cs)
    policy cs.toList memory memory _ _ hg hread.toCleanNames hchain hgen
  rw [setAll_toList] at htidy
  refine ⟨_, classes, ?_, hn', houtcome, htidy⟩
  rw [hgen, hout]
  have hmembers := @recordsOn_eq_recordsWith g ((R.rerun settings g cs).roster n' classes) R
    settings fun c hc hi => hn'.memberRecords_eq houtcome h hg hread hc hi
  exact congrArg (fun rs => (Except.ok (result n' rs), _, memory)) hmembers

end Session

end StableNames
