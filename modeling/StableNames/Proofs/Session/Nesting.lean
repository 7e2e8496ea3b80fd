-- Nesting. A renamed class that stands in another one is named after it,
-- however deep it stands, and one that stands in none is put behind the
-- namespace or into its own package. Where packages are kept, a class goes
-- into its package also if the class around it is in the namespace: then
-- its name does not show the nesting.
import StableNames.Proofs.Session.FirstRun
import StableNames.Proofs.Session.Records

namespace StableNames

namespace Session

variable {μ : Type} {settings : Settings} {g : Graph} {targets : List String} {c o : ClassId}
  {name outer : String}

/-- What stands in a class of this name goes into its own package: packages are kept, and what
it is put behind starts with the namespace. -/
def Detaches (settings : Settings) (outer : String) : Prop :=
  settings.keepPackage = true ∧ settings.targetNamespace.toList <+: (outer ++ "$").toList

instance (settings : Settings) (outer : String) : Decidable (Detaches settings outer) :=
  inferInstanceAs (Decidable (_ ∧ _))

theorem not_detaches (h : settings.keepPackage = false) : ¬ Detaches settings outer := by
  rintro ⟨hkeep, _⟩
  rw [h] at hkeep
  cases hkeep

/-- A name behind the namespace detaches what stands in it. -/
example : Detaches { obfuscated := [], keepPackage := true } "net/minecraft/class_1" ∧
    ¬ Detaches { obfuscated := [], keepPackage := true } "com/game/class_1" := by
  decide

theorem placeOf_of_detaches (h : Detaches settings outer) (name : String) :
    placeOf settings name (outer ++ "$") = packageOf name := by
  unfold placeOf
  rw [if_pos]
  rw [Bool.and_eq_true]
  exact ⟨h.1, List.isPrefixOf_iff_prefix.2 h.2⟩

theorem placeOf_of_not_detaches (h : ¬ Detaches settings outer) (name : String) :
    placeOf settings name (outer ++ "$") = outer ++ "$" := by
  unfold placeOf
  rw [if_neg]
  rw [Bool.and_eq_true]
  rintro ⟨hkeep, hprefix⟩
  exact h ⟨hkeep, List.isPrefixOf_iff_prefix.1 hprefix⟩

/-- The namespace starts with itself. -/
theorem placeOf_targetNamespace (settings : Settings) (name : String) :
    placeOf settings name settings.targetNamespace =
      if settings.keepPackage then packageOf name else settings.targetNamespace := by
  unfold placeOf
  rw [List.isPrefixOf_iff_prefix.2 (List.prefix_refl _), Bool.and_true]

/-- The name is a number of a class behind the place. -/
def NumberedIn (place full : String) : Prop := ∃ k, full = place ++ Category.ofClass.name k

/-- The new names of classes, in order, stand in one another as the classes do. Only what is
detached stands in its own package. -/
structure Nested (settings : Settings) (g : Graph) (targets : List String) : Prop where
  kept : ∀ c < g.classCount, keepsName settings (g.classInfo c) = true →
    targets.getD c "" = g.className c
  outermost : ∀ c < g.classCount, keepsName settings (g.classInfo c) = false →
    (g.classInfo c).outer? = none → NumberedIn
      (if settings.keepPackage then packageOf (g.className c) else settings.targetNamespace)
      (targets.getD c "")
  inside : ∀ c < g.classCount, keepsName settings (g.classInfo c) = false →
    ∀ o, (g.classInfo c).outer? = some o → ¬ Detaches settings (targets.getD o "") →
      NumberedIn (targets.getD o "" ++ "$") (targets.getD c "")
  detached : ∀ c < g.classCount, keepsName settings (g.classInfo c) = false →
    ∀ o, (g.classInfo c).outer? = some o → Detaches settings (targets.getD o "") →
      NumberedIn (packageOf (g.className c)) (targets.getD c "")

/-- The class is renamed and stands in `o`, as do the renamed classes between the two. The
number is that of the levels. -/
inductive RenamedInside (settings : Settings) (g : Graph) (o : ClassId) : Nat → ClassId → Prop
  | directly {c : ClassId} (hc : c < g.classCount)
      (hkeep : keepsName settings (g.classInfo c) = false)
      (houter : (g.classInfo c).outer? = some o) : RenamedInside settings g o 1 c
  | deeper {levels : Nat} {c d : ClassId} (hc : c < g.classCount)
      (hkeep : keepsName settings (g.classInfo c) = false)
      (houter : (g.classInfo c).outer? = some d) (h : RenamedInside settings g o levels d) :
      RenamedInside settings g o (levels + 1) c

/-- The name of a class inside another one, with a number for each level. -/
def nestedName (outer : String) (numbers : List Nat) : String :=
  numbers.foldl (fun full k => full ++ "$" ++ Category.ofClass.name k) outer

theorem nestedName_concat (outer : String) (numbers : List Nat) (k : Nat) :
    nestedName outer (numbers ++ [k]) =
      nestedName outer numbers ++ "$" ++ Category.ofClass.name k := List.foldl_concat _ _ _ _

/-- At every depth a renamed class is named after each class around it, as long as none of
them detaches it. -/
theorem Nested.exists_numbers (h : Nested settings g targets) {levels : Nat}
    (hin : RenamedInside settings g o levels c)
    (hattached : ∀ d, d = o ∨ (∃ levels, RenamedInside settings g o levels d) →
      ¬ Detaches settings (targets.getD d "")) :
    ∃ numbers, numbers.length = levels ∧
      targets.getD c "" = nestedName (targets.getD o "") numbers := by
  induction hin with
  | @directly c hc hkeep houter =>
    obtain ⟨k, hk⟩ := h.inside c hc hkeep o houter (hattached o (.inl rfl))
    exact ⟨[k], rfl, hk⟩
  | @deeper _ c d hc hkeep houter hd ih =>
    obtain ⟨numbers, hlen, hfull⟩ := ih
    obtain ⟨k, hk⟩ := h.inside c hc hkeep d houter (hattached d (.inr ⟨_, hd⟩))
    refine ⟨numbers ++ [k], by simp [hlen], ?_⟩
    rw [hk, hfull, nestedName_concat]

/-! ## Runs without earlier names -/

/-- Without earlier names every renamed class has a number where its surroundings put it. -/
theorem nested_of_targeted {l : Lineage} {n : Naming} (hchain : l.chain = {})
    (h : ∀ c < l.graph.classCount, l.Targeted settings n c
      (surroundings settings l.graph targets c) (targets.getD c "")) :
    Nested settings l.graph targets := by
  have hfresh : ∀ c < l.graph.classCount, keepsName settings (l.graph.classInfo c) = false →
      NumberedIn (placeOf settings (l.graph.className c) (surroundings settings l.graph targets c))
        (targets.getD c "") := by
    intro c hc hkeep
    have hnone : l.chain.lookupClass (l.graph.className c) = none := by
      rw [hchain]
      rfl
    obtain ⟨k, _, hfull⟩ := (h c hc).fresh hkeep hnone
    exact ⟨k, hfull⟩
  constructor
  case kept => exact fun c hc hkeep => (h c hc).kept hkeep
  case outermost =>
    intro c hc hkeep houter
    have hnumbered := hfresh c hc hkeep
    rw [surroundings_of_outermost _ houter, placeOf_targetNamespace] at hnumbered
    exact hnumbered
  case inside =>
    intro c hc hkeep o houter hattached
    have hnumbered := hfresh c hc hkeep
    rw [surroundings_of_nested _ houter, placeOf_of_not_detaches hattached] at hnumbered
    exact hnumbered
  case detached =>
    intro c hc hkeep o houter hdetached
    have hnumbered := hfresh c hc hkeep
    rw [surroundings_of_nested _ houter, placeOf_of_detaches hdetached] at hnumbered
    exact hnumbered

/-- Nesting survives renaming, except where packages are kept. Without earlier names a session
gives a result if it has given out no number yet, and whenever it gives one, the targets in it
are those of all classes with a record. A renamed class in another one is named after it, at
every depth, and an outermost one stands in the namespace, or in its own package if packages are
kept. If they are, a class also stands in its own package when what it would be put behind starts
with the namespace. -/
theorem renamed_classes_are_named_after_those_around_them {source : String} {doc : Document}
    {s : Session} (hload : Graph.ofDocument source doc = .ok s.lineage.graph)
    (hchain : s.lineage.chain = {}) (policy : Policy μ) (memory : μ) :
    (s.naming.allocator.numbers = ∅ →
      ∃ out s', s.generate policy memory = (.ok out, s', memory)) ∧
    ∀ out s' memory', s.generate policy memory = (.ok out, s', memory') → ∃ targets rs,
      out.text = textOf rs out.counters ∧
      (∀ name target, .ofClass name target ∈ rs ↔ ∃ c < s.lineage.graph.classCount,
        included s.settings s.lineage.graph c = true ∧ name = s.lineage.graph.className c ∧
          target = targets.getD c "") ∧
      Nested s.settings s.lineage.graph targets ∧
      ∀ o c levels, RenamedInside s.settings s.lineage.graph o levels c →
        (∀ d, d = o ∨ (∃ levels, RenamedInside s.settings s.lineage.graph o levels d) →
          ¬ Detaches s.settings (targets.getD d "")) →
        ∃ numbers, numbers.length = levels ∧
          targets.getD c "" = nestedName (targets.getD o "") numbers := by
  have hg := Graph.coherent_of_ofDocument hload
  constructor
  · intro hnone
    exact exists_generated_of_sorted hchain (Allocator.sorted_of_numbers_eq hnone) policy memory
  · intro out s' memory' hgen
    obtain ⟨rs, hx, rfl⟩ := generate_eq_ok hgen
    obtain ⟨_, _, hN⟩ := runs_allRecords (@kept_true μ s.lineage policy) hg _ _ _ _ _ trivial hx
    obtain ⟨targets, _, rfl, hclasses⟩ := hN rs rfl _ (.refl _)
    have hnested : Nested s.settings s.lineage.graph targets :=
      nested_of_targeted hchain fun c hc => (hclasses c hc).2
    refine ⟨targets, _, rfl, fun _ _ => Roster.mem_recordsOn_ofClass, hnested, ?_⟩
    intro o c levels hin hattached
    exact hnested.exists_numbers hin hattached

/-- A class in the package of the namespace, with a class inside it. -/
def packagedClass : Document where
  classes := [{ name := "net/minecraft/a", inner := [{ name := "net/minecraft/a$1" }] }]

/-- A new session for it, in which all classes of the package are scrambled. -/
def packagedSession (keepPackage : Bool) : Session where
  settings := ({ Settings.default with keepPackage }.setObfuscation
    ["net/minecraft/.*"]).toOption.getD default
  lineage.graph := (Graph.ofDocument "" packagedClass).toOption.getD {}

/-- As long as packages are not kept, the inner class is named after the outer one. -/
theorem renamed_classes_are_named_after_those_around_them_packaged :
    ∃ out s' targets, (packagedSession false).generate Policy.fail () = (.ok out, s', ()) ∧
      Nested (packagedSession false).settings (packagedSession false).lineage.graph targets ∧
      NumberedIn "net/minecraft/" (targets.getD 0 "") ∧
      NumberedIn (targets.getD 0 "" ++ "$") (targets.getD 1 "") := by
  have hload : Graph.ofDocument "" packagedClass = .ok (packagedSession false).lineage.graph := rfl
  have hkeep : (packagedSession false).settings.keepPackage = false := by decide +kernel
  have hns : (packagedSession false).settings.targetNamespace = "net/minecraft/" := by
    decide +kernel
  have houter : keepsName (packagedSession false).settings
      ((packagedSession false).lineage.graph.classInfo 0) = false := by decide +kernel
  have hinner : keepsName (packagedSession false).settings
      ((packagedSession false).lineage.graph.classInfo 1) = false := by decide +kernel
  obtain ⟨hresult, hnested⟩ := renamed_classes_are_named_after_those_around_them hload rfl
    Policy.fail ()
  obtain ⟨out, s', hgen⟩ := hresult rfl
  obtain ⟨targets, rs, _, _, h, _⟩ := hnested out s' () hgen
  have hfirst := h.outermost 0 (by decide) houter rfl
  rw [hkeep, hns] at hfirst
  have hsecond := h.inside 1 (by decide) hinner 0 rfl (not_detaches hkeep)
  exact ⟨out, s', targets, hgen, h, hfirst, hsecond⟩

/-- If they are kept, it is not, although both are renamed. -/
theorem kept_packages_detach_nested_classes :
    ((packagedSession true).generate Policy.fail ()).1.toOption.map (·.text) =
      some (textOf [.ofClass "net/minecraft/a" "net/minecraft/class_1",
        .ofClass "net/minecraft/a$1" "net/minecraft/class_2"] { classes := some 3 }) ∧
    keepsName (packagedSession true).settings
      ((packagedSession true).lineage.graph.classInfo 1) = false ∧
    ((packagedSession true).lineage.graph.classInfo 1).outer? = some 0 ∧
    ¬ NumberedIn ("net/minecraft/class_1" ++ "$") "net/minecraft/class_2" := by
  refine ⟨by decide +kernel, by decide +kernel, rfl, ?_⟩
  rintro ⟨k, hk⟩
  have hdollar : '$' ∈ ("net/minecraft/class_1" ++ "$" ++ Category.ofClass.name k).toList := by
    simp
  rw [← hk] at hdollar
  exact absurd hdollar (by decide)

end Session

end StableNames
