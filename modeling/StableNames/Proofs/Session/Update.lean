-- An update keeps every name. A version whose symbols all have a match in
-- an earlier one is that version under new names. The way over the matches
-- leads each symbol back to what the first run called it, also where an
-- override has no name of its own and its old slot is asked instead.
import StableNames.Proofs.Matches
import StableNames.Proofs.Session.FirstRun
import StableNames.Proofs.Session.FixedPoint
import StableNames.Proofs.Session.Renamed

namespace StableNames

variable {ren : Renaming} {doc : Document} {settings : Settings} {g g' : Graph} {R : Roster}
  {c d : ClassId} {f : FieldId} {m n : MethodId} {toOld names : Store} {cs : Counters}

/-! ## Symbols by all that they go by -/

namespace Graph.WellFormed

/-- Descriptors tell fields from methods. -/
theorem fieldMember_ne_methodMember (hwf : g.WellFormed) (hf : f < g.fields.size)
    (hm : m < g.methodCount) : g.fieldMember f ≠ g.methodMember m := by
  intro h
  have hdesc : (g.field f).desc = (g.method m).desc := congrArg Member.desc h
  exact hwf.field_desc f hf (hdesc ▸ hwf.method_desc m hm)

end Graph.WellFormed

/-! ## Matches of all symbols -/

/-- The matches of all symbols of a graph, from their new names back. -/
def Renaming.allMatches (ren : Renaming) (g : Graph) : List Match :=
  (List.range g.classCount).map (fun c =>
    .ofClass (ren.ofClass (g.className c)) (g.className c)) ++
  (List.range g.fields.size).map (fun f =>
    .ofField (ren.fieldMember (g.fieldMember f)) (g.fieldMember f)) ++
  (List.range g.methodCount).map fun m =>
    .ofMethod (ren.methodMember (g.methodMember m)) (g.methodMember m)

section AllMatches

variable {source target : String} {member member' : Member}

theorem Renaming.ofClass_mem_allMatches :
    .ofClass source target ∈ ren.allMatches g ↔
      ∃ c < g.classCount, source = ren.ofClass (g.className c) ∧ target = g.className c := by
  unfold allMatches
  simp [eq_comm]

theorem Renaming.ofField_mem_allMatches :
    .ofField member member' ∈ ren.allMatches g ↔ ∃ f < g.fields.size,
      member = ren.fieldMember (g.fieldMember f) ∧ member' = g.fieldMember f := by
  unfold allMatches
  simp [eq_comm]

theorem Renaming.ofMethod_mem_allMatches :
    .ofMethod member member' ∈ ren.allMatches g ↔ ∃ m < g.methodCount,
      member = ren.methodMember (g.methodMember m) ∧ member' = g.methodMember m := by
  unfold allMatches
  simp [eq_comm]

end AllMatches

/-- The store leads each symbol back to its name before the renaming. -/
structure Store.LeadsBack (toOld : Store) (ren : Renaming) (g : Graph) : Prop where
  ofClass : ∀ c < g.classCount,
    toOld.lookupClass (ren.ofClass (g.className c)) = some (g.className c)
  ofField : ∀ f < g.fields.size,
    toOld.lookupMember (ren.fieldMember (g.fieldMember f)) = some (g.fieldMember f)
  ofMethod : ∀ m < g.methodCount,
    toOld.lookupMember (ren.methodMember (g.methodMember m)) = some (g.methodMember m)

/-- New names that differ leave each symbol one match only. -/
theorem Graph.Versions.leadsBack (h : Versions ren doc g g') (hwf' : g'.WellFormed)
    {found : Matches} (hall : ∀ p, p ∈ found.pairs ↔ p ∈ ren.allMatches g) :
    (Store.empty.addMatches found).LeadsBack ren g := by
  have hg' := h.coherent'
  have hf' : ∀ {f}, f < g.fields.size → f < g'.fields.size := h.renamed.size_fields ▸ id
  have hm' : ∀ {m}, m < g.methodCount → m < g'.methodCount := h.renamed.methodCount_eq ▸ id
  constructor
  · intro c hc
    refine Store.lookupClass_addMatches ((hall _).2 ?_) ?_
    · exact Renaming.ofClass_mem_allMatches.2 ⟨c, hc, rfl, rfl⟩
    · intro target hmem
      obtain ⟨d, hd, hname, rfl⟩ := Renaming.ofClass_mem_allMatches.1 ((hall _).1 hmem)
      rw [← h.className_rename hc, ← h.className_rename hd] at hname
      have hlt : ∀ {c}, c < g.classCount → c < g'.classCount := h.renamed.classCount_eq ▸ id
      rw [hg'.className_inj (hlt hc) (hlt hd) hname]
  · intro f hf
    refine Store.lookupMember_addMatches (.inl ((hall _).2 ?_)) ?_
    · exact Renaming.ofField_mem_allMatches.2 ⟨f, hf, rfl, rfl⟩
    · intro target hmem
      rw [hall, hall, Renaming.ofField_mem_allMatches, Renaming.ofMethod_mem_allMatches,
        ← h.fieldMember_rename hf] at hmem
      rcases hmem with ⟨k, hk, hname, rfl⟩ | ⟨k, hk, hname, _⟩
      · rw [← h.fieldMember_rename hk] at hname
        rw [Graph.FieldsDistinct.fieldMember_inj hwf'.fields_distinct hg' (hf' hf) (hf' hk) hname]
      · rw [← h.methodMember_rename hk] at hname
        exact absurd hname (hwf'.fieldMember_ne_methodMember (hf' hf) (hm' hk))
  · intro m hm
    refine Store.lookupMember_addMatches (.inr ((hall _).2 ?_)) ?_
    · exact Renaming.ofMethod_mem_allMatches.2 ⟨m, hm, rfl, rfl⟩
    · intro target hmem
      rw [hall, hall, Renaming.ofField_mem_allMatches, Renaming.ofMethod_mem_allMatches,
        ← h.methodMember_rename hm] at hmem
      rcases hmem with ⟨k, hk, hname, _⟩ | ⟨k, hk, hname, rfl⟩
      · rw [← h.fieldMember_rename hk] at hname
        exact absurd hname.symm (hwf'.fieldMember_ne_methodMember (hf' hk) (hm' hm))
      · rw [← h.methodMember_rename hk] at hname
        rw [hwf'.methodMember_inj hg' (hm' hm) (hm' hk) hname]

/-! ## Names by way of the matches -/

namespace Roster

/-- All that a class of a slot gives for the slot is the name of the family. -/
theorem eq_of_mem_classHits_updating (h : R.Sound settings g) (hv : g.Versions ren doc g')
    (hwf : g.WellFormed) (hrelated : g.RelatedAlike) (hback : toOld.LeadsBack ren g)
    (hm : m < g.methodCount) (hs : isScrambledMethod (g.method m).name = true)
    (hmn : g.Akin m n) (hd : d ∈ g.slot (g.method n).owner n) {suffix : String} {hit : Hit}
    (hhit : hit ∈ (Lineage.updating g g' toOld (.written (R.recordsOn settings g fun _ => true)
      cs)).classHits (g'.method n).name (g'.method n).desc suffix d) : hit.name = R.method m := by
  have hg := hv.coherent
  have hn := hmn.lt hg hv.keys hm
  -- the class declares a method `k` of the slot, and the match of `k` is asked for its name
  obtain ⟨k, hslot, rfl⟩ := Graph.exists_mem_slotMethods hg hv.keys hn hd
  obtain ⟨hk, hkey, _⟩ := (Graph.mem_slotMethods hg hv.keys).1 hslot
  obtain ⟨hname, hdesc⟩ := hwf.eq_of_key_eq hk hn hkey
  have hmk : g.Akin m k := hmn.tail (.inl hslot)
  have hmatch : toOld.lookupMember ⟨g'.className (g.method k).owner, (g'.method n).name,
      (g'.method n).desc⟩ = some (g.methodMember k) := by
    rw [← hback.ofMethod k hk, hv.className_rename (hg.owner_lt k hk), hv.renamed.method_eq hn]
    simp only [Renaming.methodInfo, Renaming.methodMember, Graph.methodMember, hname, hdesc]
  rcases (Lineage.classHits_updating hmatch).1 hhit with ⟨found, hfound, rfl⟩ | ⟨_, hold⟩
  · exact eq_of_lookupMember_akin h hg hwf.toReadable hrelated hm hs hmk
      (g.self_mem_slot _ _) hfound
  · obtain ⟨e, he, found, hfound, rfl⟩ := Lineage.exists_of_mem_oldHits hg hv.keys hk rfl hold
    exact eq_of_lookupMember_akin h hg hwf.toReadable hrelated hm hs hmk he hfound

/-- The only candidate of a method that is written is the name of its family. -/
theorem candidates_updating (h : R.Sound settings g) (hv : g.Versions ren doc g')
    (hwf : g.WellFormed) (hrelated : g.RelatedAlike) (hback : toOld.LeadsBack ren g)
    (hm : m ∈ Session.writtenMethods settings c g)
    (hs : isScrambledMethod (g.method m).name = true) :
    ∃ origins, (Lineage.updating g g' toOld (.written (R.recordsOn settings g fun _ => true)
      cs)).candidates c m = [⟨R.method m, origins⟩] := by
  have hg := hv.coherent
  have halike := hv.alike
  obtain ⟨found, hfound, _⟩ :=
    @lookupMember_method g R settings (fun _ => true) cs c m hg hwf.toReadable rfl hm
  obtain ⟨_, hlt, rfl, _⟩ := (Session.mem_writtenMethods hg).1 hm
  set l := Lineage.updating g g' toOld (.written (R.recordsOn settings g fun _ => true) cs)
  have hvisits : l.graph.visits (g.method m).owner m = g.visits (g.method m).owner m :=
    halike.visits_eq _ m
  have hnames : ∀ hit ∈ l.hits (g.method m).owner m, hit.name = R.method m := by
    intro hit hhit
    obtain ⟨⟨d, n⟩, hvisit, hslot⟩ := Lineage.mem_hits.1 hhit
    rw [hvisits] at hvisit
    obtain ⟨rfl, hn, hmn⟩ := Graph.akin_of_mem_visits hg hlt hvisit
    obtain ⟨e, he, hclass⟩ := Lineage.mem_slotHits.1 hslot
    have he' : e ∈ g.slot (g.method n).owner n := halike.slot_eq hn _ ▸ he
    exact eq_of_mem_classHits_updating h hv hwf hrelated hback hlt hs hmn he' hclass
  have hown : (⟨found.name, g'.origin (g.method m).owner ++ Lineage.suffixOf (g'.method m)⟩ : Hit) ∈
      l.slotHits (g.method m).owner m := by
    have hmatch : toOld.lookupMember ⟨g'.className (g.method m).owner, (g'.method m).name,
        (g'.method m).desc⟩ = some (g.methodMember m) := by
      rw [← hback.ofMethod m hlt, ← hv.methodMember_rename hlt, Graph.methodMember,
        halike.owner m]
    refine Lineage.mem_slotHits.2 ⟨_, l.graph.self_mem_slot _ _, ?_⟩
    exact (Lineage.classHits_updating hmatch).2 (.inl ⟨found, hfound, rfl⟩)
  have hvisit : ((g.method m).owner, m) ∈ l.graph.visits (g.method m).owner m :=
    hvisits ▸ Graph.self_mem_visits hlt
  exact Lineage.candidates_of_same_name hvisit hown hnames

variable (h : R.Sound settings g) (hv : g.Versions ren doc g') (hback : toOld.LeadsBack ren g)

include h hv hback

theorem adopted_updating (hwf : g.WellFormed) (hns : settings.PlainNamespace)
    (hc : c < g.classCount) (hkeep : Session.keepsName settings (g.classInfo c) = false) :
    ∃ earlier, (Lineage.updating g g' toOld (.written (R.recordsOn settings g fun _ => true)
        cs)).chain.lookupClass (g'.className c) = some earlier ∧
      Category.ofClass.owns (Session.ownPart earlier) = true ∧
      Session.placeOf settings (g'.className c) (Session.placeLike earlier
        (Session.surroundings settings g' R.classes c)) ++ Session.ownPart earlier =
          R.target c := by
  have hreads := h.rereads hns (fun _ => hwf.package c hc) hc hkeep (g'.className c)
  have haround : Session.surroundings settings g' R.classes c =
      Session.surroundings settings g R.classes c := by
    unfold Session.surroundings
    rw [hv.renamed.classInfo_eq hc]
    rfl
  refine ⟨R.target c, ?_, hreads.owns, ?_⟩
  · rw [hv.className_rename hc, Lineage.lookupClass_updating (hback.ofClass c hc)]
    exact lookupClass_recordsOn hv.coherent hc rfl
  · rw [haround]
    exact hreads.full_eq

theorem field_updating (hr : ren.Respects settings g) (hwf : g.WellFormed) (hf : f < g.fields.size)
    (hs : isScrambledField (g'.field f).name = true) (hmap : settings.mapFields = true) :
    ∃ earlier, (Lineage.updating g g' toOld (.written (R.recordsOn settings g fun _ => true)
        cs)).chain.lookupMember (g'.fieldMember f) = some earlier ∧
      Category.ofField.owns earlier.name = true ∧ earlier.name = R.field f := by
  rw [hr.scrambledField_rename hv hf] at hs
  have hmem := (Session.mem_writtenFields hv.coherent).2 ⟨hmap, hf, rfl⟩
  obtain ⟨found, hfound, hname⟩ :=
    @lookupMember_field g R settings (fun _ => true) cs _ f hv.coherent hwf.toReadable rfl hmem
  rw [fieldName, if_pos hs] at hname
  refine ⟨found, ?_, ?_, hname⟩
  · rw [hv.fieldMember_rename hf, Lineage.lookupMember_updating (hback.ofField f hf)]
    exact hfound
  · rw [hname]
    exact (h.field _ rfl f hmem hs).1

/-- By way of the matches every symbol of the renamed graph is known under its name in the
roster of the graph. -/
theorem known_updating (hr : ren.Respects settings g) (hwf : g.WellFormed)
    (hrelated : g.RelatedAlike) (hns : settings.PlainNamespace) :
    R.Known settings (Lineage.updating g g' toOld (.written (R.records settings g) cs)) := by
  rw [← recordsOn_all]
  have halike := hv.alike
  have hc' : ∀ {c}, c < g'.classCount → c < g.classCount := halike.classCount_eq ▸ id
  have hm' : ∀ {m}, m < g'.methodCount → m < g.methodCount := halike.methodCount_eq ▸ id
  refine ⟨?length, ?kept, ?adopted, ?field, ?method, ?family⟩
  case length => exact h.length_classes.trans halike.classCount_eq.symm
  case kept =>
    intro c hc hkeep
    rw [Lineage.graph_updating] at hc hkeep ⊢
    rw [hr.keepsName_rename hv (hc' hc)] at hkeep
    rw [hv.className_rename (hc' hc), hr.kept c (hc' hc) hkeep]
    exact (h.target c (hc' hc)).kept hkeep
  case adopted =>
    intro c hc hkeep
    rw [Lineage.graph_updating] at hc hkeep ⊢
    rw [hr.keepsName_rename hv (hc' hc)] at hkeep
    exact adopted_updating h hv hback hwf hns (hc' hc) hkeep
  case field =>
    intro f hf hs _ hmap
    rw [Lineage.graph_updating] at hf hs ⊢
    exact field_updating h hv hback hr hwf (hv.renamed.size_fields ▸ hf) hs hmap
  case method =>
    intro c m hm hs
    rw [Lineage.graph_updating] at hm hs
    obtain ⟨_, hlt, rfl, _⟩ := (Session.mem_writtenMethods hv.coherent').1 hm
    rw [hr.scrambledMethod_rename hv (hm' hlt)] at hs
    rw [hr.writtenMethods_rename hv (hc' (hv.coherent'.owner_lt m hlt))] at hm
    exact ⟨h.owns_method _ rfl m hm hs, candidates_updating h hv hwf hrelated hback hm hs⟩
  case family =>
    intro m hm k hk
    rw [Lineage.graph_updating] at hm hk
    rw [halike.owner, halike.family_eq hv.coherent (hm' hm)] at hk
    exact h.family m (hm' hm) k hk

end Roster

namespace Session

/-- An update in which every symbol has a match keeps every name. A first run of a version
gives a text and asks nothing. Take the version under new names, which differ where the old
ones did and leave alone what is not renamed. A session for it that reads the text back, with
its counters and its store, and that knows the match of each symbol, writes the same records
under the new names of their symbols. Nothing is allocated or renamed, the counters stay, and
no policy is asked. -/
theorem every_full_update_keeps_every_name {source source' : String}
    (hload : Graph.ofDocument source doc = .ok g)
    (hload' : Graph.ofDocument source' (ren.document doc) = .ok g') (hwf : g.WellFormed)
    (hwf' : g'.WellFormed) (hplain : doc.PlainMethods)
    (hplain' : (ren.document doc).PlainMethods) (hrelated : g.RelatedAlike)
    (hfaithful : ren.Faithful doc) (hr : ren.Respects settings g)
    (hincludes : settings.includes = []) (hns : settings.PlainNamespace)
    (counters : List (Category × Nat)) {μ : Type} (policy : Policy μ) (memory : μ) :
    ∃ out s', ((start settings g).applyCounters counters).generate policy memory =
        (.ok out, s', memory) ∧
      (out.counters.Fit → ∀ file, ∃ rs snapshot store, (∀ r ∈ rs, r.Clean) ∧
        out.text = writeSnapshot officialNamespace stableNamespace
          (rs ++ [.verbatim out.counters.lines]) ∧
        readSnapshot file out.text = .ok snapshot ∧ stableStore snapshot = .ok store ∧
        ∀ found : Matches, (∀ p, p ∈ found.pairs ↔ p ∈ ren.allMatches g) →
        ∀ {ν : Type} (policy' : Policy ν) (memory' : ν), ∃ out' s'',
          ((((start settings g').applyCounters snapshot.counters).setOldGraph g).setEarlier
            { toOld := Store.empty.addMatches found, names := store }).generate policy' memory' =
              (.ok out', s'', memory') ∧
          out'.text = writeSnapshot officialNamespace stableNamespace
            (rs.map ren.record ++ [.verbatim out.counters.lines]) ∧
          out'.counters = out.counters ∧ out'.freshNames = 0 ∧ out'.stats.renamed = 0 ∧
          out'.stats.decided = 0) := by
  have hv : g.Versions ren doc g' := {
    built := Graph.built_of_ofDocument hload
    built' := Graph.built_of_ofDocument hload'
    coherent := Graph.coherent_of_ofDocument hload
    coherent' := Graph.coherent_of_ofDocument hload'
    keys := hwf.keysDistinct
    keys' := hwf'.keysDistinct
    faithful := hfaithful
    plain := hplain
    plain' := hplain' }
  have hg := hv.coherent
  obtain ⟨out, s', hrun⟩ :=
    @exists_generated μ { graph := g } settings rfl counters policy memory
  refine ⟨out, s', hrun, ?_⟩
  intro hfit file
  obtain ⟨R, n', hsound, rfl⟩ : ∃ R : Roster, ∃ n' : Naming, R.Sound settings g ∧
      out = result n' (R.records settings g) := by
    apply exists_sound_roster hg hwf hincludes Chain.clean_empty hrun
    rw [asked_of_empty_chain settings rfl]
    simp [Talk.Marked]
  have hclean : ∀ r ∈ R.records settings g, r.Clean := fun r hr =>
    hsound.clean_records hg hwf hns hr
  refine ⟨R.records settings g, _, _, hclean, rfl, readSnapshot_text hclean hfit file,
    ofSnapshot_written _ _, ?_⟩
  rw [counters_written]
  intro found hall ν policy' memory'
  have hback := hv.leadsBack hwf' hall
  have hknown : R.Known settings (.updating g g' (Store.empty.addMatches found)
      (.written (R.records settings g) n'.allocator.counters)) :=
    Roster.known_updating hsound hv hback hr hwf hrelated hns
  obtain ⟨out', s'', hgen, htext, hcounters, hrest⟩ := generate_known hknown hv.coherent'
    hincludes n'.allocator.counters.toList policy' memory'
  rw [setAll_toList] at htext hcounters
  rw [Lineage.graph_updating, hr.records_rename hv] at htext
  exact ⟨out', s'', hgen, htext, hcounters, hrest⟩

/-- A class with a field and a method that takes the class, and another class that overrides
the method. -/
def earlierVersion : Document where
  classes := [
    { name := "a"
      fields := [{ name := "b", desc := "I" }]
      methods := [{ name := "x", desc := "(La;)V" }] },
    { name := "b"
      superName? := some "a"
      methods := [{ name := "x", desc := "(La;)V" }] }]

/-- The same classes with their names swapped, and with new names for the members. -/
def laterVersion : Document where
  classes := [
    { name := "b"
      fields := [{ name := "c", desc := "I" }]
      methods := [{ name := "y", desc := "(Lb;)V" }] },
    { name := "a"
      superName? := some "b"
      methods := [{ name := "y", desc := "(Lb;)V" }] }]

/-- The renaming from the earlier version to the later one. -/
def swapped : Renaming where
  ofClass name := if name = "a" then "b" else if name = "b" then "a" else name
  ofField _ := "c"
  ofMethod _ _ := "y"

def earlierGraph : Graph := (Graph.ofDocument "" earlierVersion).toOption.getD {}

def laterGraph : Graph := (Graph.ofDocument "" laterVersion).toOption.getD {}

theorem faithful_swapped : swapped.Faithful earlierVersion := by
  have hnames : earlierVersion.methodNames = [("x", "(La;)V"), ("x", "(La;)V")] := rfl
  refine ⟨by decide, ?_⟩
  intro p hp q hq _ _
  rw [hnames] at hp hq
  simp only [List.mem_cons, List.not_mem_nil, or_false, or_self] at hp hq
  rw [hp, hq]

theorem every_full_update_keeps_every_name_swapped :
    ∃ out s', ((start allScrambled earlierGraph).applyCounters []).generate Policy.fail () =
        (.ok out, s', ()) ∧ out.counters.Fit ∧
      ∃ rs snapshot store, out.text = writeSnapshot officialNamespace stableNamespace
          (rs ++ [.verbatim out.counters.lines]) ∧
        readSnapshot "" out.text = .ok snapshot ∧ stableStore snapshot = .ok store ∧
        ∃ out' s'', ((((start allScrambled laterGraph).applyCounters
            snapshot.counters).setOldGraph earlierGraph).setEarlier
            { toOld := Store.empty.addMatches { pairs := swapped.allMatches earlierGraph },
              names := store }).generate Policy.fail () = (.ok out', s'', ()) ∧
          out'.text = writeSnapshot officialNamespace stableNamespace
            (rs.map swapped.record ++ [.verbatim out.counters.lines]) := by
  have hdocument : swapped.document earlierVersion = laterVersion := by cbv
  have hload : Graph.ofDocument "" earlierVersion = .ok earlierGraph := rfl
  have hload' : Graph.ofDocument "" (swapped.document earlierVersion) = .ok laterGraph := by
    rw [hdocument]
    rfl
  have hwf : earlierGraph.WellFormed := by decide
  have hwf' : laterGraph.WellFormed := by decide
  have hplain : earlierVersion.PlainMethods := by decide
  have hplain' : (swapped.document earlierVersion).PlainMethods := by
    rw [hdocument]
    decide
  have hrelated : earlierGraph.RelatedAlike := by decide
  have hrespects : swapped.Respects allScrambled earlierGraph := by decide
  have hns : allScrambled.PlainNamespace := by decide
  have hcounters : (((start allScrambled earlierGraph).applyCounters []).generate Policy.fail
      ()).1.toOption.map (·.counters) =
        some { classes := some 3, fields := some 2, methods := some 2 } := by cbv
  obtain ⟨out, s', hgen, hupdate⟩ := every_full_update_keeps_every_name hload hload' hwf hwf'
    hplain hplain' hrelated faithful_swapped hrespects rfl hns [] Policy.fail ()
  rw [hgen] at hcounters
  have hfit : out.counters.Fit := by
    rw [show out.counters = _ from Option.some.inj hcounters]
    decide
  obtain ⟨rs, snapshot, store, _, htext, hread, hstore, hrun⟩ := hupdate hfit ""
  obtain ⟨out', s'', hgen', htext', _⟩ := hrun { pairs := swapped.allMatches earlierGraph }
    (fun _ => Iff.rfl) Policy.fail ()
  exact ⟨out, s', hgen, hfit, rs, snapshot, store, htext, hread, hstore, out', s'', hgen', htext'⟩

/-! ## Columns that break -/

/-- A whole update: the first run of a document, its text read back, and the run of the
document under new names with all matches. -/
def fullUpdate (settings : Settings) (ren : Renaming) (doc : Document) :
    Except Problem Generated := do
  let g ← Graph.ofDocument "" doc
  let g' ← Graph.ofDocument "" (ren.document doc)
  let first ← ((start settings g).generate Policy.fail ()).1
  let snapshot ← readSnapshot "" first.text
  let names ← stableStore snapshot
  let toOld := Store.empty.addMatches { pairs := ren.allMatches g }
  ((((start settings g').applyCounters snapshot.counters).setOldGraph g).setEarlier
    { toOld, names }).generate Policy.fail () |>.1

/-- The renaming that changes nothing. -/
def unchanged : Renaming where
  ofClass name := name
  ofField m := m.name
  ofMethod name _ := name

/-- A namespace without a dollar sign, but with a tab. -/
def tabbed : Settings := { allScrambled with targetNamespace := "x\ty/" }

def bareClass : Document := ⟨[{ name := "a" }]⟩

def bareGraph : Graph := (Graph.ofDocument "" bareClass).toOption.getD {}

/-- A class with a field whose descriptor is empty. -/
def bareField : Document := ⟨[{ name := "a", fields := [{ name := "b", desc := "" }] }]⟩

set_option maxRecDepth 2000 in
/-- Clean names are not enough. A tab in the namespace or an empty descriptor breaks the
columns of the text, so that not even a version under its own names can be updated. -/
theorem no_update_over_broken_columns :
    (Graph.ofDocument "" bareClass = .ok bareGraph ∧ bareGraph.WellFormed ∧
      unchanged.document bareClass = bareClass ∧ unchanged.Faithful bareClass ∧
      unchanged.Respects tabbed bareGraph ∧ tabbed.includes = [] ∧
      '$' ∉ tabbed.targetNamespace.toList ∧
      fullUpdate tabbed unchanged bareClass = .error (.format "" 2 (.columns "CLASS" 3 4))) ∧
    fullUpdate allScrambled unchanged bareField =
      .error (.format "" 3 (.columns "FIELD" 5 5)) := by
  refine ⟨⟨rfl, ?_, rfl, ?_, ?_, rfl, by decide, rfl⟩, rfl⟩
  · decide
  · exact ⟨fun _ _ _ _ h => h, fun p hp => by cases hp⟩
  · decide

end Session

end StableNames
