-- Texts that runs make one after another, each from nothing or from the
-- text before it. In all of them no two classes and no two renamed fields
-- have the same target: its number comes from the counters of the run, or
-- it was in the text before, and then only one symbol goes by its old key.
import Mathlib
import StableNames.Proofs.Naming.Tagged
import StableNames.Proofs.Session.Succession
import StableNames.Session.Prepare

namespace StableNames

open Naming

/-! ## What is asked for -/

/-- Official names are without the markers of new names, no class declares a field twice, and
descriptors tell fields from methods. -/
@[mk_iff]
structure Graph.Official (g : Graph) : Prop where
  fields_distinct : g.FieldsDistinct
  field_desc : ∀ f < g.fields.size, (g.field f).desc.toList.head? ≠ some '('
  method_desc : ∀ m < g.methodCount, (g.method m).desc.toList.head? = some '('
  class_name : ∀ c < g.classCount, Category.ofClass.owns (g.className c) = false
  field_name : ∀ f < g.fields.size, Category.ofField.owns (g.field f).name = false

instance (g : Graph) : Decidable g.Official := decidable_of_iff' _ (Graph.official_iff g)

namespace Store

/-- No two symbols have the same match. -/
structure OneToOne (s : Store) : Prop where
  class_inj : ∀ name name' old, s.lookupClass name = some old → s.lookupClass name' = some old →
    name = name'
  member_inj : ∀ member member' old, s.lookupMember member = some old →
    s.lookupMember member' = some old → member = member'

/-- No two symbols have the same match, and no field is matched with a method. -/
structure Faithful (s : Store) : Prop extends s.OneToOne where
  field_desc : ∀ member old, member.desc.toList.head? ≠ some '(' →
    s.lookupMember member = some old → old.desc.toList.head? ≠ some '('

theorem faithful_identity : Store.identity.Faithful := by
  refine ⟨⟨?_, ?_⟩, ?_⟩
  · rintro name name' old h h'
    cases h
    cases h'
    rfl
  · rintro member member' old h h'
    cases h
    cases h'
    rfl
  · rintro member old hfield h
    cases h
    exact hfield

/-! ### Stores of pairs -/

/-- A store with these pairs of classes and of members. -/
def ofPairs (classes : List (String × String)) (members : List (Member × Member)) : Store :=
  .tables ⟨.ofList classes, .ofList members⟩

variable {classes : List (String × String)} {members : List (Member × Member)}

theorem clean_ofPairs (hc : ∀ e ∈ classes, CleanName e.2) (hm : ∀ e ∈ members, CleanName e.2.name) :
    (ofPairs classes members).Clean := by
  constructor
  · intro _ _ _ h
    exact hc _ (Assoc.mem_of_get?_ofList h)
  · intro _ _ _ h
    exact hm _ (Assoc.mem_of_get?_ofList h)

theorem oneToOne_ofPairs (hc : (classes.map (·.2)).Nodup) (hm : (members.map (·.2)).Nodup) :
    (ofPairs classes members).OneToOne := by
  constructor
  · intro name name' old h h'
    have heq := List.inj_on_of_nodup_map hc (Assoc.mem_of_get?_ofList h)
      (Assoc.mem_of_get?_ofList h') rfl
    exact congrArg Prod.fst heq
  · intro member member' old h h'
    have heq := List.inj_on_of_nodup_map hm (Assoc.mem_of_get?_ofList h)
      (Assoc.mem_of_get?_ofList h') rfl
    exact congrArg Prod.fst heq

theorem faithful_ofPairs (hc : (classes.map (·.2)).Nodup) (hm : (members.map (·.2)).Nodup)
    (hdesc : ∀ e ∈ members, e.1.desc.toList.head? ≠ some '(' → e.2.desc.toList.head? ≠ some '(') :
    (ofPairs classes members).Faithful := by
  refine ⟨oneToOne_ofPairs hc hm, ?_⟩
  intro member old hfield h
  exact hdesc _ (Assoc.mem_of_get?_ofList h) hfield

end Store

/-- The stores of a run that takes its names from those of an earlier text: for the same
version, for the same version with each name derived anew, or by way of matches that may
be used. -/
inductive Chain.TakesFrom (admits : Store → Prop) (names : Store) : Chain → Prop
  | regenerate : TakesFrom admits names { current? := some names }
  | rederive : TakesFrom admits names { earlier? := some ⟨.identity, names⟩ }
  | update {toOld : Store} (h : admits toOld) :
      TakesFrom admits names { earlier? := some ⟨toOld, names⟩ }

/-- The texts that runs make one after another. A first run knows no names and no counters,
and any other takes both from a text that was made before. -/
inductive Reachable (admits : Store → Prop) : String → Prop
  | fresh {r : Run} (hr : r.Complete) (ho : r.job.lineage.graph.Official)
      (hchain : r.job.lineage.chain = {}) (hstart : r.counters = []) :
      Reachable admits r.out.text
  | next {r : Run} {text file : String} {snapshot : Snapshot} {names : Store}
      (h : Reachable admits text) (hread : readSnapshot file text = .ok snapshot)
      (hnames : Session.stableStore snapshot = .ok names) (hr : r.Complete)
      (ho : r.job.lineage.graph.Official) (hchain : r.job.lineage.chain.TakesFrom admits names)
      (hstart : r.counters = snapshot.counters) : Reachable admits r.out.text

/-- In a snapshot no two classes and no two renamed fields have the same target, and the
target of each renamed one ends in a number behind its counter. -/
structure Snapshot.TargetsApart (s : Snapshot) : Prop where
  classes : (s.classes.map (·.getD 1 "")).Nodup
  fields : ((s.fields.filter fun r => r.names.getD 1 "" ≠ r.names.getD 0 "").map
    (·.names.getD 1 "")).Nodup
  class_number : ∀ names ∈ s.classes, names.getD 1 "" ≠ names.getD 0 "" → ∃ place n bound,
    names.getD 1 "" = place ++ Category.ofClass.name n ∧
      (Counters.setAll {} s.counters).get? .ofClass = some bound ∧ n < bound
  field_number : ∀ r ∈ s.fields, r.names.getD 1 "" ≠ r.names.getD 0 "" → ∃ place n bound,
    r.names.getD 1 "" = place ++ Category.ofField.name n ∧
      (Counters.setAll {} s.counters).get? .ofField = some bound ∧ n < bound

/-! ## What all texts have in common -/

/-- The classes and the fields of the records are tagged, and a descriptor tells a method from
a field. -/
structure Orderly (rs : List Record) (cs : Counters) : Prop where
  classes : Tagged .ofClass cs id (rs.filterMap (·.classPair?))
  fields : Tagged .ofField cs (·.name) (rs.filterMap (·.fieldPair?))
  method_desc : ∀ owner desc name target, .ofMethod owner desc name target ∈ rs →
    desc.toList.head? = some '('

variable {rs : List Record} {cs : Counters} {toOld : Store}

theorem orderly_nil (cs : Counters) : Orderly [] cs :=
  ⟨.empty _ _ _, .empty _ _ _, by simp⟩

/-- The targets of orderly records are apart. -/
theorem Orderly.targetsApart (h : Orderly rs cs) : (Snapshot.written rs cs).TargetsApart := by
  have hcounters : Counters.setAll {} (Snapshot.written rs cs).counters = cs := by
    rw [counters_written, setAll_toList]
  refine ⟨?classes, ?fields, ?class_number, ?field_number⟩
  case classes =>
    rw [classes_written, List.map_map]
    refine h.classes.nodup_targets (List.Sublist.refl _) ?_
    rintro name name' target _ _ rfl rfl
    rfl
  case fields =>
    rw [fields_written, List.filter_map, List.map_map]
    refine h.fields.nodup_targets List.filter_sublist ?_
    intro member _ target hmem _ hkept _
    have hrenamed := (List.mem_filter.1 hmem).2
    simp [hkept] at hrenamed
  case class_number =>
    intro names hnames hne
    rw [classes_written] at hnames
    obtain ⟨⟨name, target⟩, he, rfl⟩ := List.mem_map.1 hnames
    rw [hcounters]
    rcases h.classes.cases name target he with ⟨hkept, _⟩ | ⟨place, n, htarget, b, hb, hlt⟩
    · exact absurd hkept hne
    · exact ⟨place, n, b, htarget, hb, hlt⟩
  case field_number =>
    intro r hr hne
    rw [fields_written] at hr
    obtain ⟨⟨member, target⟩, he, rfl⟩ := List.mem_map.1 hr
    rw [hcounters]
    rcases h.fields.cases member target he with ⟨hkept, _⟩ | ⟨place, n, htarget, b, hb, hlt⟩
    · exact absurd hkept hne
    · exact ⟨place, n, b, htarget, hb, hlt⟩

/-! ## One run -/

/-- All that the chain knows of a symbol is what the store knows of its match. -/
structure Chain.Asks (chain : Chain) (toOld names : Store) : Prop where
  lookupClass : ∀ name, chain.lookupClass name = (toOld.lookupClass name).bind names.lookupClass
  lookupMember : ∀ member,
    chain.lookupMember member = (toOld.lookupMember member).bind names.lookupMember

theorem Chain.asks_empty (cs : Counters) : ({} : Chain).Asks .identity (.written [] cs) := by
  constructor
  · intro name
    simp [Chain.lookupClass, Store.lookupClass, Store.written, Snapshot.tables, classes_written,
      Assoc.ofList]
  · intro member
    simp [Chain.lookupMember, Chain.currentMember, Store.lookupMember, Store.written,
      Snapshot.tables, Snapshot.fields, Snapshot.methods, filterMap_written, Assoc.ofList]

theorem Chain.TakesFrom.exists_asks {admits : Store → Prop} {names : Store} {chain : Chain}
    (h : chain.TakesFrom admits names) (hadmits : ∀ toOld, admits toOld → toOld.Faithful) :
    ∃ toOld : Store, toOld.Faithful ∧ chain.Asks toOld names := by
  cases h with
  | regenerate =>
    refine ⟨.identity, Store.faithful_identity, ?_, ?_⟩
    · intro name
      exact Option.or_none
    · intro member
      exact Option.or_none
  | rederive => exact ⟨.identity, Store.faithful_identity, fun _ => rfl, fun _ => rfl⟩
  | update htoOld => exact ⟨_, hadmits _ htoOld, fun _ => rfl, fun _ => rfl⟩

theorem Graph.Coherent.nodup_className {g : Graph} (hg : g.Coherent) (p : ClassId → Bool) :
    ((g.classIds.filter p).map g.className).Nodup := by
  have hlt : ∀ c ∈ g.classIds.filter p, c < g.classCount := fun c hc =>
    Graph.mem_classIds.1 (List.mem_filter.1 hc).1
  have hids : (g.classIds.filter p).Nodup := List.nodup_range.filter _
  exact hids.map_on fun c hc d hd hname => hg.className_inj (hlt c hc) (hlt d hd) hname

theorem Graph.Coherent.nodup_fieldMember {g : Graph} (hg : g.Coherent) (hf : g.FieldsDistinct)
    (settings : Settings) (p : ClassId → Bool) :
    (((g.classIds.filter p).flatMap fun c => Session.writtenFields settings c g).map
      g.fieldMember).Nodup := by
  have hids :
      ((g.classIds.filter p).flatMap fun c => Session.writtenFields settings c g).Nodup := by
    rw [List.nodup_flatMap]
    constructor
    · intro c _
      unfold Session.writtenFields
      split
      · exact hg.nodup_fields c
      · exact List.nodup_nil
    · have hclasses : (g.classIds.filter p).Nodup := List.nodup_range.filter _
      refine hclasses.imp ?_
      intro c d hne f hc hd
      obtain ⟨_, _, rfl⟩ := (Session.mem_writtenFields hg).1 hc
      obtain ⟨_, _, howner⟩ := (Session.mem_writtenFields hg).1 hd
      exact hne howner
  refine hids.map_on ?_
  intro f hmem f' hmem' heq
  obtain ⟨c, _, hc⟩ := List.mem_flatMap.1 hmem
  obtain ⟨d, _, hd⟩ := List.mem_flatMap.1 hmem'
  obtain ⟨_, hlt, _⟩ := (Session.mem_writtenFields hg).1 hc
  obtain ⟨_, hlt', _⟩ := (Session.mem_writtenFields hg).1 hd
  exact hf.fieldMember_inj hg hlt hlt' heq

namespace Lineage.Outcome

variable {l : Lineage} {settings : Settings} {n : Naming} {classes : List String}

/-- The classes of a run are tagged if those of the text before it were. -/
theorem tagged_classes (h : l.Outcome settings n classes) (hg : l.graph.Coherent)
    (ho : l.graph.Official) (hasks : l.chain.Asks toOld (.written rs cs))
    (hone : toOld.OneToOne) (htidy : n.allocator.Tidy cs)
    (htagged : Tagged .ofClass cs id (rs.filterMap (·.classPair?))) (p : ClassId → Bool) :
    Tagged .ofClass n.allocator.counters id
      (((l.roster n classes).recordsOn settings l.graph p).filterMap (·.classPair?)) := by
  rw [Roster.classPairs_recordsOn]
  refine htagged.of_numberedBy htidy l.graph.className (l.roster n classes).target .ofClass
    (fun c => toOld.lookupClass (l.graph.className c)) (hg.nodup_className p) ?symbol ?old ?cases
  case symbol =>
    intro c d hcd
    cases hcd
    rfl
  case old =>
    intro c _ d _ old hc hd
    exact hone.class_inj _ _ old hc hd
  case cases =>
    intro c hc
    have hlt : c < l.graph.classCount := Graph.mem_classIds.1 (List.mem_filter.1 hc).1
    have htarget := h.target c hlt
    rcases hkeep : Session.keepsName settings (l.graph.classInfo c) with _ | _
    · right
      obtain ⟨own, hown, hfull⟩ := htarget.renamed hkeep
      cases hown with
      | numbered _ hn => exact ⟨_, _, hfull, .anew hn⟩
      | adopted hknown howns =>
        obtain ⟨earlier, hearlier, rfl⟩ := Option.map_eq_some_iff.1 hknown
        rw [hasks.lookupClass] at hearlier
        obtain ⟨old, hold, hfound⟩ := Option.bind_eq_some_iff.1 hearlier
        have he : (old, earlier) ∈ rs.filterMap (·.classPair?) :=
          List.mem_filterMap.2 ⟨_, mem_of_lookupClass hfound, rfl⟩
        -- the own part of the earlier name ends in the number of the earlier name
        obtain ⟨before, hbefore⟩ := Session.exists_append_ownPart earlier
        obtain ⟨place, n, rfl, _⟩ := htagged.exists_number he
          (hbefore ▸ Category.owns_append before howns)
        obtain ⟨place', hpart⟩ :=
          Session.exists_ownPart_append place (Category.dollar_not_mem_name .ofClass n)
        have hend := hfull
        rw [hpart, ← String.append_assoc] at hend
        exact ⟨_, n, hend, .kept hold he⟩
    · left
      have hfull := htarget.kept hkeep
      refine ⟨hfull, ?_⟩
      exact (congrArg _ hfull).trans (ho.class_name c hlt)

/-- The fields of a run are tagged if those of the text before it were. -/
theorem tagged_fields (h : l.Outcome settings n classes) (hg : l.graph.Coherent)
    (ho : l.graph.Official) (hasks : l.chain.Asks toOld (.written rs cs))
    (hfaithful : toOld.Faithful) (htidy : n.allocator.Tidy cs) (horderly : Orderly rs cs) :
    Tagged .ofField n.allocator.counters (·.name)
      (((l.roster n classes).recordsOn settings l.graph
        (Session.included settings l.graph)).filterMap (·.fieldPair?)) := by
  have htagged := horderly.fields
  rw [Roster.fieldPairs_recordsOn hg]
  refine htagged.of_numberedBy htidy l.graph.fieldMember
    ((l.roster n classes).fieldName l.graph) .ofField
    (fun f => toOld.lookupMember (l.graph.fieldMember f))
    (hg.nodup_fieldMember ho.fields_distinct settings _) ?symbol ?old ?cases
  case symbol =>
    intro f f' hff'
    cases hff'
    rfl
  case old =>
    intro f _ f' _ old hf hf'
    exact hfaithful.member_inj _ _ old hf hf'
  case cases =>
    intro f hmem
    obtain ⟨c, hc, hf⟩ := List.mem_flatMap.1 hmem
    obtain ⟨hids, hincluded⟩ := List.mem_filter.1 hc
    have hcount : c < l.graph.classCount := Graph.mem_classIds.1 hids
    obtain ⟨_, hlt, _⟩ := (Session.mem_writtenFields hg).1 hf
    unfold Roster.fieldName
    rcases hs : isScrambledField (l.graph.field f).name with _ | _
    · exact .inl ⟨rfl, ho.field_name f hlt⟩
    · right
      have hsource := (h.members c hcount hincluded).fields f hf hs
      simp only [if_true]
      change ∃ place n, l.fieldNameIn _ f = _ ∧ _
      generalize l.fieldNameIn _ f = target at hsource
      cases hsource with
      | numbered _ hn => exact ⟨"", _, (String.empty_append).symm, .anew hn⟩
      | adopted hknown howns =>
        obtain ⟨found, hfound, rfl⟩ := Option.map_eq_some_iff.1 hknown
        rw [hasks.lookupMember] at hfound
        obtain ⟨old, hold, hfound⟩ := Option.bind_eq_some_iff.1 hfound
        have hdesc := hfaithful.field_desc (l.graph.fieldMember f) old (ho.field_desc f hlt) hold
        -- a field is found in the record of a field, since its descriptor says that it is one
        have he : (old, found.name) ∈ rs.filterMap (·.fieldPair?) := by
          rcases hasMember_of_lookupMember hfound with hr | hr
          · exact List.mem_filterMap.2 ⟨_, hr, rfl⟩
          · exact absurd (horderly.method_desc _ _ _ _ hr) hdesc
        obtain ⟨place, n, htarget, _⟩ := htagged.exists_number he howns
        rw [htarget] at he ⊢
        exact ⟨place, n, rfl, .kept hold he⟩

end Lineage.Outcome

/-- The text of a run is orderly if the text that it took its names and counters from was. -/
theorem Orderly.run (h : Orderly rs cs) {r : Run} (hr : r.Complete)
    (ho : r.job.lineage.graph.Official) (hfaithful : toOld.Faithful)
    (hasks : r.job.lineage.chain.Asks toOld (.written rs cs))
    (hstart : Counters.setAll {} r.counters = cs) :
    ∃ rs' cs', Orderly rs' cs' ∧
      ∀ file, readSnapshot file r.out.text = .ok (.written rs' cs') := by
  obtain ⟨classes, houtcome, htidy, hout⟩ := hr.exists_outcome
  obtain ⟨source, doc, hload⟩ := hr.clean.loaded
  have hg := Graph.coherent_of_ofDocument hload
  rw [hstart] at htidy
  refine ⟨r.records classes, r.out.counters, ?_, hr.readSnapshot_records houtcome hout⟩
  rw [hr.counters_eq]
  refine ⟨houtcome.tagged_classes hg ho hasks hfaithful.toOneToOne htidy h.classes _,
    houtcome.tagged_fields hg ho hasks hfaithful htidy h, ?_⟩
  intro owner desc name target hmem
  obtain ⟨c, _, _, m, hm, _, rfl, _⟩ := Roster.mem_recordsOn_ofMethod.1 hmem
  obtain ⟨_, hlt, _⟩ := (Session.mem_writtenMethods hg).1 hm
  exact ho.method_desc m hlt

namespace Reachable

variable {admits : Store → Prop} {text : String}

/-! ## Runs on documents -/

/-- The graph of a document. -/
def graphOf (doc : Document) : Graph := (Graph.ofDocument "" doc).toOption.getD {}

/-- Jobs can be made of the document. -/
@[mk_iff]
structure Usable (doc : Document) : Prop where
  loads : (Graph.ofDocument "" doc).toOption.isSome = true
  names : (graphOf doc).CleanNames
  official : (graphOf doc).Official

instance (doc : Document) : Decidable (Usable doc) := decidable_of_iff' _ (usable_iff doc)

/-- An update with the names in records. -/
def updateOf (doc : Document) (toOld : Store) (rs : List Record) (cs : Counters) : Job :=
  .ofDocument doc { earlier? := some ⟨toOld, .written rs cs⟩ }

/-- The run ends with this text and these counters. -/
def EndsIn (j : Job) (counters : List (Category × Nat)) (text : String) (cs : Counters) : Prop :=
  (j.run counters).1.toOption.map (fun out => (out.text, out.counters)) = some (text, cs)

instance (j : Job) (counters : List (Category × Nat)) (text : String) (cs : Counters) :
    Decidable (EndsIn j counters text cs) :=
  inferInstanceAs (Decidable (_ = _))

theorem complete_of_endsIn {j : Job} {counters : List (Category × Nat)}
    (h : EndsIn j counters text cs) (hj : j.Clean) (hcs : cs.Fit) :
    (j.ran counters).Complete ∧ (j.ran counters).out.text = text := by
  obtain ⟨out, hout, heq⟩ := Option.map_eq_some_iff.1 h
  cases heq
  have hran : (j.ran counters).out = out := by
    unfold Job.ran
    rw [hout]
    rfl
  rw [hran]
  exact ⟨Job.complete_ran hj (by rw [hout]; rfl) hcs (by rw [hran]), rfl⟩

variable {rs' : List Record} {cs' : Counters}

theorem first (doc : Document) (hdoc : Usable doc) (hcs : cs.Fit)
    (h : EndsIn (.ofDocument doc {}) [] (textOf rs cs) cs) : Reachable admits (textOf rs cs) := by
  obtain ⟨hcomplete, htext⟩ :=
    complete_of_endsIn h (Job.clean_ofDocument hdoc.loads hdoc.names Chain.clean_empty) hcs
  rw [← htext]
  exact .fresh hcomplete hdoc.official rfl rfl

theorem update (h : Reachable admits (textOf rs cs)) (hrs : ∀ r ∈ rs, r.Clean) (hcs : cs.Fit)
    (doc : Document) (toOld : Store) (hdoc : Usable doc) (hadmits : admits toOld)
    (hclean : toOld.Clean) (hcs' : cs'.Fit)
    (h' : EndsIn (updateOf doc toOld rs cs) cs.toList (textOf rs' cs') cs') :
    Reachable admits (textOf rs' cs') := by
  have hchain : Chain.Clean { earlier? := some ⟨toOld, .written rs cs⟩ } :=
    ⟨by simp, by simpa using hclean, by simpa using Store.clean_written hrs⟩
  obtain ⟨hcomplete, htext⟩ :=
    complete_of_endsIn h' (Job.clean_ofDocument hdoc.loads hdoc.names hchain) hcs'
  rw [← htext]
  exact h.next (readSnapshot_textOf hrs hcs "") rfl hcomplete
    hdoc.official (.update hadmits) (counters_written rs cs).symm

/-! ## All runs -/

theorem exists_orderly (h : Reachable admits text)
    (hadmits : ∀ toOld, admits toOld → toOld.Faithful) :
    ∃ rs cs, Orderly rs cs ∧ ∀ file, readSnapshot file text = .ok (.written rs cs) := by
  induction h with
  | fresh hr ho hchain hstart =>
    have hasks := Chain.asks_empty {}
    rw [← hchain] at hasks
    exact (orderly_nil {}).run hr ho Store.faithful_identity hasks (by rw [hstart]; rfl)
  | @next r text file snapshot names _ hread hnames hr ho hchain hstart ih =>
    obtain ⟨rs, cs, horderly, hwritten⟩ := ih
    rw [hwritten file] at hread
    cases hread
    cases hnames
    obtain ⟨toOld, hfaithful, hasks⟩ := hchain.exists_asks hadmits
    exact horderly.run hr ho hfaithful hasks (by rw [hstart, counters_written, setAll_toList])

/-- Targets stay apart. Take runs one after another, each from nothing or from the text before
it, and let no update match two symbols with one, or a field with a method. Then the text is
read back, no two classes and no two renamed fields have the same target in it, and all
numbers at the ends of new names are behind their counters. -/
theorem targets_stay_apart (h : Reachable Store.Faithful text) (file : String) :
    ∃ snapshot, readSnapshot file text = .ok snapshot ∧ snapshot.TargetsApart := by
  obtain ⟨rs, cs, horderly, hread⟩ := h.exists_orderly fun _ h => h
  exact ⟨_, hread file, horderly.targetsApart⟩

/-- A text after the official names of a class and its field have changed and a field was
added. The targets that there were have stayed, and the new field has the next number. -/
def renamedText : String :=
  textOf [.ofClass "b" "net/minecraft/class_1", .ofField "b" "I" "y" "field_1",
    .ofField "b" "I" "z" "field_2"] { classes := some 2, fields := some 3 }

theorem targets_stay_apart_renamed : Reachable Store.Faithful renamedText ∧
    ∃ snapshot, readSnapshot "" renamedText = .ok snapshot ∧ snapshot.TargetsApart := by
  have hfirst : Reachable Store.Faithful (textOf
      [.ofClass "a" "net/minecraft/class_1", .ofField "a" "I" "x" "field_1"]
      { classes := some 2, fields := some 2 }) :=
    first ⟨[{ name := "a", fields := [{ name := "x", desc := "I" }] }]⟩ (by decide) (by decide)
      (by decide +kernel)
  have htext : Reachable Store.Faithful renamedText :=
    hfirst.update (by decide) (by decide)
      ⟨[{ name := "b", fields := [{ name := "y", desc := "I" }, { name := "z", desc := "I" }] }]⟩
      (.ofPairs [("b", "a")] [(⟨"b", "y", "I"⟩, ⟨"a", "x", "I"⟩)]) (by decide)
      (Store.faithful_ofPairs (by decide) (by decide) (by decide))
      (Store.clean_ofPairs (by decide) (by decide)) (by decide) (by decide +kernel)
  exact ⟨htext, targets_stay_apart htext ""⟩

/-- Matches that no two symbols share are not enough. The method `field_1` has a record under its
own name, and a field that is matched with it takes that for the name of a field. -/
theorem targets_collide_across_kinds : ¬ ∀ text, Reachable Store.OneToOne text → ∀ file,
    ∃ snapshot, readSnapshot file text = .ok snapshot ∧ snapshot.TargetsApart := by
  intro h
  have hfirst : Reachable Store.OneToOne (textOf
      [.ofClass "a" "net/minecraft/class_1", .ofField "a" "I" "x" "field_1",
        .ofMethod "a" "()V" "field_1" "field_1"]
      { classes := some 2, fields := some 2 }) :=
    first
      ⟨[{ name := "a", fields := [{ name := "x", desc := "I" }],
          methods := [{ name := "field_1", desc := "()V" }] }]⟩
      (by decide) (by decide) (by unfold EndsIn; cbv)
  have htext : Reachable Store.OneToOne (textOf
      [.ofClass "a" "net/minecraft/class_1", .ofField "a" "I" "x" "field_1",
        .ofField "a" "I" "y" "field_1"]
      { classes := some 2, fields := some 2 }) :=
    hfirst.update (by decide) (by decide)
      ⟨[{ name := "a", fields := [{ name := "x", desc := "I" }, { name := "y", desc := "I" }] }]⟩
      (.ofPairs [("a", "a")]
        [(⟨"a", "x", "I"⟩, ⟨"a", "x", "I"⟩), (⟨"a", "y", "I"⟩, ⟨"a", "field_1", "()V"⟩)])
      (by decide)
      (Store.oneToOne_ofPairs (by decide) (by decide))
      (Store.clean_ofPairs (by decide) (by decide)) (by decide) (by decide +kernel)
  obtain ⟨snapshot, hread, hapart⟩ := h _ htext ""
  rw [readSnapshot_textOf (by decide) (by decide)] at hread
  cases hread
  exact absurd hapart.fields (by decide)

end Reachable

end StableNames
