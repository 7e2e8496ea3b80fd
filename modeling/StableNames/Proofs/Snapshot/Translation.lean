-- Stores between the namespaces of a snapshot. Each is a table from the
-- names that records have in one namespace to the names of the same
-- records in another. If in each namespace all records have names of their
-- own, then the way there and the way back undo each other, and two ways
-- one after the other are the direct way.
import Mathlib.Data.List.Nodup
import StableNames.Proofs.Snapshot.Loaded

namespace StableNames

/-! ## Tables between two views -/

namespace Assoc

variable {α κ : Type} [DecidableEq κ] {xs : List α} {u v w : α → κ} {a b : κ}

/-- The table that leads from one view of each item to another. -/
def between (xs : List α) (u v : α → κ) : Assoc κ κ := .ofList (xs.map fun x => (u x, v x))

theorem get?_between (hu : (xs.map u).Nodup) :
    (between xs u v).get? a = some b ↔ ∃ x ∈ xs, u x = a ∧ v x = b := by
  constructor
  · intro h
    obtain ⟨x, hx, heq⟩ := List.mem_map.1 (mem_of_get?_ofList h)
    cases heq
    exact ⟨x, hx, rfl, rfl⟩
  · rintro ⟨x, hx, rfl, rfl⟩
    apply get?_ofList
    · exact List.mem_map.2 ⟨x, hx, rfl⟩
    · intro b' hb'
      obtain ⟨x', hx', heq⟩ := List.mem_map.1 hb'
      obtain ⟨hux, rfl⟩ := Prod.mk.inj heq
      rw [List.inj_on_of_nodup_map hu hx' hx hux]

theorem get?_between_symm (hu : (xs.map u).Nodup) (hv : (xs.map v).Nodup) :
    (between xs u v).get? a = some b ↔ (between xs v u).get? b = some a := by
  rw [get?_between hu, get?_between hv]
  simp only [and_comm]

theorem get?_between_trans (hu : (xs.map u).Nodup) (hv : (xs.map v).Nodup) (w : α → κ) (a : κ) :
    ((between xs u v).get? a).bind (between xs v w).get? = (between xs u w).get? a := by
  apply Option.ext
  intro c
  rw [Option.bind_eq_some_iff, get?_between hu]
  constructor
  · rintro ⟨b, hab, hbc⟩
    obtain ⟨x, hx, rfl, rfl⟩ := (get?_between hu).1 hab
    obtain ⟨y, hy, hvy, rfl⟩ := (get?_between hv).1 hbc
    obtain rfl := List.inj_on_of_nodup_map hv hy hx hvy
    exact ⟨y, hy, rfl, rfl⟩
  · rintro ⟨x, hx, rfl, rfl⟩
    exact ⟨v x, (get?_between hu).2 ⟨x, hx, rfl, rfl⟩, (get?_between hv).2 ⟨x, hx, rfl, rfl⟩⟩

end Assoc

/-! ## Names of their own -/

namespace Snapshot

variable {s : Snapshot} {i : Nat}

/-- The fields and methods, in the order in which a store takes them. -/
def members (s : Snapshot) : List MemberRecord := s.fields ++ s.methods

/-- A field or method as the namespace at `i` has it. -/
def memberAt (s : Snapshot) (i : Nat) (r : MemberRecord) : Member := r.memberIn (s.classesTo i) i

/-- There is a record of the class. -/
def Lists (s : Snapshot) (name : String) : Prop :=
  ∃ names ∈ s.classes, names.getD 0 "" = name

instance (s : Snapshot) (name : String) : Decidable (s.Lists name) := by
  unfold Lists
  infer_instance

/-- The classes that a field or method mentions. -/
def mentions (r : MemberRecord) : List String := r.owner :: Descriptor.classes r.desc

/-- In the namespace at `i` the records have names of their own: no two classes have the same,
nor has a class that is mentioned without a record the name of a class with one, and fields and
methods with the same name differ in their class or descriptor. No class has a semicolon. -/
structure Distinguishes (s : Snapshot) (i : Nat) : Prop where
  classes : (s.classes.map (·.getD i "")).Nodup
  no_semicolon : ∀ names ∈ s.classes, ';' ∉ (names.getD i "").toList
  foreign : ∀ r ∈ s.members, ∀ name ∈ mentions r, ¬ s.Lists name →
    ∀ names ∈ s.classes, names.getD i "" ≠ name
  members : (s.members.map fun r => (r.owner, r.desc, r.names.getD i "")).Nodup

theorem distinguishes_iff (s : Snapshot) (i : Nat) : s.Distinguishes i ↔
    (s.classes.map (·.getD i "")).Nodup ∧
    (∀ names ∈ s.classes, ';' ∉ (names.getD i "").toList) ∧
    (∀ r ∈ s.members, ∀ name ∈ mentions r, ¬ s.Lists name →
      ∀ names ∈ s.classes, names.getD i "" ≠ name) ∧
    (s.members.map fun r => (r.owner, r.desc, r.names.getD i "")).Nodup :=
  ⟨fun ⟨hc, hs, hf, hm⟩ => ⟨hc, hs, hf, hm⟩, fun ⟨hc, hs, hf, hm⟩ => ⟨hc, hs, hf, hm⟩⟩

instance (s : Snapshot) (i : Nat) : Decidable (s.Distinguishes i) :=
  decidable_of_iff' _ (s.distinguishes_iff i)

theorem exists_of_classesTo {name target : String}
    (h : (s.classesTo i).get? name = some target) :
    ∃ names ∈ s.classes, names.getD 0 "" = name ∧ names.getD i "" = target := by
  obtain ⟨names, hnames, heq⟩ := List.mem_map.1 (Assoc.mem_of_get?_ofList h)
  cases heq
  exact ⟨names, hnames, rfl, rfl⟩

theorem not_lists_of_classesTo {name : String} (h : (s.classesTo i).get? name = none) :
    ¬ s.Lists name := by
  rintro ⟨names, hnames, rfl⟩
  have hmem : (names.getD 0 "", names.getD i "") ∈
      s.classes.map fun names => (names.getD 0 "", names.getD i "") :=
    List.mem_map.2 ⟨names, hnames, rfl⟩
  obtain ⟨target, htarget⟩ := Assoc.exists_get?_ofList hmem
  unfold classesTo at h
  rw [htarget] at h
  cases h

/-- Different classes that are mentioned go by different names. -/
theorem Distinguishes.renamed_inj (h : s.Distinguishes i) {r r' : MemberRecord}
    (hr : r ∈ s.members) (hr' : r' ∈ s.members) {name name' : String} (hn : name ∈ mentions r)
    (hn' : name' ∈ mentions r')
    (heq : Descriptor.renamed (s.classesTo i).get? name =
      Descriptor.renamed (s.classesTo i).get? name') : name = name' := by
  unfold Descriptor.renamed at heq
  rcases ht : (s.classesTo i).get? name with _ | target <;>
    rcases ht' : (s.classesTo i).get? name' with _ | target' <;>
    simp only [ht, ht', Option.getD_none, Option.getD_some] at heq
  · exact heq
  · obtain ⟨names, hnames, _, htarget⟩ := exists_of_classesTo ht'
    exact absurd (htarget.trans heq.symm)
      (h.foreign r hr name hn (not_lists_of_classesTo ht) names hnames)
  · obtain ⟨names, hnames, _, htarget⟩ := exists_of_classesTo ht
    exact absurd (htarget.trans heq)
      (h.foreign r' hr' name' hn' (not_lists_of_classesTo ht') names hnames)
  · obtain ⟨names, hnames, rfl, htarget⟩ := exists_of_classesTo ht
    obtain ⟨names', hnames', rfl, htarget'⟩ := exists_of_classesTo ht'
    rw [List.inj_on_of_nodup_map h.classes hnames hnames'
      (htarget.trans (heq.trans htarget'.symm))]

/-- Different fields and methods go by different names, classes or descriptors. -/
theorem Distinguishes.nodup_memberAt (h : s.Distinguishes i) :
    (s.members.map (s.memberAt i)).Nodup := by
  have hsemicolon : ∀ name target, (s.classesTo i).get? name = some target →
      ';' ∉ target.toList := by
    intro name target htarget
    obtain ⟨names, hnames, _, rfl⟩ := exists_of_classesTo htarget
    exact h.no_semicolon names hnames
  apply List.Nodup.map_on _ (List.Nodup.of_map _ h.members)
  intro r hr r' hr' heq
  obtain ⟨howner, hname, hdesc⟩ := Member.mk.inj heq
  have howner' : r.owner = r'.owner :=
    h.renamed_inj hr hr' List.mem_cons_self List.mem_cons_self howner
  have hdesc' : r.desc = r'.desc := by
    apply Descriptor.remap_inj hsemicolon _ hdesc
    intro name hn name' hn'
    exact h.renamed_inj hr hr' (List.mem_cons_of_mem _ hn) (List.mem_cons_of_mem _ hn')
  apply List.inj_on_of_nodup_map h.members hr hr'
  simp only [howner', hdesc', hname]

end Snapshot

/-! ## There and back -/

namespace Store

/-- The store leads from the names that records have at `i` to those that they have at `j`. -/
def LeadsBetween (s : Snapshot) (i j : Nat) (store : Store) : Prop :=
  (∀ names ∈ s.classes, store.lookupClass (names.getD i "") = some (names.getD j "")) ∧
  ∀ r ∈ s.members, store.lookupMember (s.memberAt i r) = some (s.memberAt j r)

/-- Each store leads back to where the other one comes from. -/
def Inverse (there back : Store) : Prop :=
  (∀ name name', there.lookupClass name = some name' ↔ back.lookupClass name' = some name) ∧
  ∀ member member', there.lookupMember member = some member' ↔
    back.lookupMember member' = some member

/-- What `first` and then `second` lead to is what `direct` leads to. -/
def Composes (first second direct : Store) : Prop :=
  (∀ name, (first.lookupClass name).bind second.lookupClass = direct.lookupClass name) ∧
  ∀ member, (first.lookupMember member).bind second.lookupMember = direct.lookupMember member

variable {s : Snapshot} {i j k : Nat}

theorem ofSnapshot_eq {a b : String} (ha : s.namespaceIndex? a = some i)
    (hb : s.namespaceIndex? b = some j) : ofSnapshot s a b = .ok (.tables (s.tables i j)) := by
  unfold ofSnapshot Snapshot.requireNamespace
  rw [ha, hb]
  rfl

theorem leadsBetween_tables (hi : s.Distinguishes i) (j : Nat) :
    LeadsBetween s i j (.tables (s.tables i j)) := by
  constructor
  · intro names hnames
    exact (Assoc.get?_between hi.classes).2 ⟨names, hnames, rfl, rfl⟩
  · intro r hr
    exact (Assoc.get?_between hi.nodup_memberAt).2 ⟨r, hr, rfl, rfl⟩

theorem inverse_tables (hi : s.Distinguishes i) (hj : s.Distinguishes j) :
    Inverse (.tables (s.tables i j)) (.tables (s.tables j i)) := by
  constructor
  · intro name name'
    exact Assoc.get?_between_symm hi.classes hj.classes
  · intro member member'
    exact Assoc.get?_between_symm hi.nodup_memberAt hj.nodup_memberAt

theorem composes_tables (hi : s.Distinguishes i) (hj : s.Distinguishes j) (k : Nat) :
    Composes (.tables (s.tables i j)) (.tables (s.tables j k)) (.tables (s.tables i k)) := by
  constructor
  · intro name
    exact Assoc.get?_between_trans hi.classes hj.classes _ name
  · intro member
    exact Assoc.get?_between_trans hi.nodup_memberAt hj.nodup_memberAt _ member

end Store

open Store in
/-- There are stores between all namespaces. Where records have names of their own in two of
them, each store leads from the names of a record to its names, and the stores of the two
directions undo each other, for all classes and members. Two stores one after the other answer
every question as the direct one does, and nothing is asked of the namespace where they end. -/
theorem stores_invert_and_compose {s : Snapshot} {a b c : String} {i j k : Nat}
    (ha : s.namespaceIndex? a = some i) (hb : s.namespaceIndex? b = some j)
    (hc : s.namespaceIndex? c = some k) (hi : s.Distinguishes i) (hj : s.Distinguishes j) :
    ∃ ab ba bc ac, ofSnapshot s a b = .ok ab ∧ ofSnapshot s b a = .ok ba ∧
      ofSnapshot s b c = .ok bc ∧ ofSnapshot s a c = .ok ac ∧
      LeadsBetween s i j ab ∧ LeadsBetween s j i ba ∧ Inverse ab ba ∧ Composes ab bc ac := by
  refine ⟨_, _, _, _, ofSnapshot_eq ha hb, ofSnapshot_eq hb ha, ofSnapshot_eq hb hc,
    ofSnapshot_eq ha hc, ?_, ?_, ?_, ?_⟩
  · exact leadsBetween_tables hi j
  · exact leadsBetween_tables hj i
  · exact inverse_tables hi hj
  · exact composes_tables hi hj k

/-- Three namespaces. The second gives each of two classes the name of the other, and the class
`z` has no record. -/
def crossed : Snapshot :=
  ⟨["official", "crossed", "plain"],
    [.ofClass ["x", "y", "p"], .ofClass ["y", "x", "q"],
      .ofField ⟨"x", "Ly;", ["f", "g", "left"]⟩, .ofField ⟨"y", "Lx;", ["f", "g", "right"]⟩,
      .ofMethod ⟨"z", "(Lx;[Lz;)Ly;", ["m", "n", "turn"]⟩]⟩

open Store in
theorem stores_invert_and_compose_crossed :
    crossed.Distinguishes 0 ∧ crossed.Distinguishes 1 ∧
    ∃ there back on direct, ofSnapshot crossed "official" "crossed" = .ok there ∧
      ofSnapshot crossed "crossed" "official" = .ok back ∧
      ofSnapshot crossed "crossed" "plain" = .ok on ∧
      ofSnapshot crossed "official" "plain" = .ok direct ∧
      LeadsBetween crossed 0 1 there ∧ LeadsBetween crossed 1 0 back ∧ Inverse there back ∧
      Composes there on direct := by
  have hi : crossed.Distinguishes 0 := by decide +kernel
  have hj : crossed.Distinguishes 1 := by decide +kernel
  exact ⟨hi, hj, stores_invert_and_compose rfl rfl rfl hi hj⟩

/-- The classes of a descriptor are renamed, and the one without a record stays. -/
example : (Store.tables (crossed.tables 1 2)).lookupMember ⟨"z", "n", "(Ly;[Lz;)Lx;"⟩ =
    some ⟨"z", "turn", "(Lp;[Lz;)Lq;"⟩ := by decide +kernel

end StableNames
