-- What loading comes to. A document with two classes of one name makes no
-- graph. Any other one makes a graph in which everything fits together:
-- the classes stand in it as in the document, members belong to one class
-- each, links are the same from both sides, and no question is answered
-- with a number that is out of range.
import StableNames.Naming.Family
import StableNames.Proofs.Graph.Families
import StableNames.Proofs.Graph.Layout
import StableNames.Proofs.Naming.Candidates

namespace StableNames

open Relation Reach

/-- All methods of a document, in the order of their classes. -/
def Document.methods (doc : Document) : List MethodDecl := doc.preorder.flatMap (·.methods)

namespace Graph

variable {g : Graph} {a c d : ClassId} {m n : MethodId} {key : String} {s : Symbol}

/-! ## What is put together -/

/-- The method with the number `m` lists another one: it names a class of the graph, and what
this class declares last under the name and the descriptor. -/
def Names (g : Graph) (doc : Document) (m n : MethodId) : Prop :=
  ∃ d, doc.methods[m]? = some d ∧ ∃ r ∈ d.related, g.methodOf? r = some n

/-- The symbols that the graph gives out: its own, those that stand in it somewhere, and those
that a question about any of them is answered with. -/
inductive Gives (g : Graph) : Symbol → Prop
  | own {s : Symbol} (h : g.Has s) : Gives g s
  | root {c : ClassId} (h : c ∈ g.roots) : Gives g (.ofClass c)
  | byName {name : String} {c : ClassId} (h : g.classOf? name = some c) : Gives g (.ofClass c)
  | member {r : Member} {m : MethodId} (h : g.methodOf? r = some m) : Gives g (.ofMethod m)
  | inner {c d : ClassId} (hc : Gives g (.ofClass c)) (h : d ∈ (g.classInfo c).inner) :
      Gives g (.ofClass d)
  | outer {c d : ClassId} (hc : Gives g (.ofClass c)) (h : (g.classInfo c).outer? = some d) :
      Gives g (.ofClass d)
  | field {c : ClassId} {f : FieldId} (hc : Gives g (.ofClass c))
      (h : f ∈ (g.classInfo c).fields) : Gives g (.ofField f)
  | method {c : ClassId} {m : MethodId} (hc : Gives g (.ofClass c))
      (h : m ∈ (g.classInfo c).methods) : Gives g (.ofMethod m)
  | declared {c : ClassId} {key : String} {m : MethodId} (hc : Gives g (.ofClass c))
      (h : g.methodIn? c key = some m) : Gives g (.ofMethod m)
  | fieldOwner {f : FieldId} (hf : Gives g (.ofField f)) : Gives g (.ofClass (g.field f).owner)
  | methodOwner {m : MethodId} (hm : Gives g (.ofMethod m)) :
      Gives g (.ofClass (g.method m).owner)
  | supertype {c a : ClassId} (hc : Gives g (.ofClass c)) (h : a ∈ g.supertypes c) :
      Gives g (.ofClass a)
  | subtype {c d : ClassId} (hc : Gives g (.ofClass c)) (h : d ∈ g.subtypes c) :
      Gives g (.ofClass d)
  | related {m n : MethodId} (hm : Gives g (.ofMethod m)) (h : n ∈ g.relatedTo m) :
      Gives g (.ofMethod n)
  | ancestor {c a : ClassId} {key : String} (hc : Gives g (.ofClass c))
      (h : a ∈ g.declaringAncestors key c) : Gives g (.ofClass a)
  | descendant {c d : ClassId} (hc : Gives g (.ofClass c)) (h : d ∈ g.descendants c) :
      Gives g (.ofClass d)
  | slot {c d : ClassId} {m : MethodId} (hc : Gives g (.ofClass c)) (hm : Gives g (.ofMethod m))
      (h : d ∈ g.slot c m) : Gives g (.ofClass d)
  | relatedMethod {c d : ClassId} {m n : MethodId} (hc : Gives g (.ofClass c))
      (hm : Gives g (.ofMethod m)) (h : (d, n) ∈ g.relatedMethods c m) : Gives g (.ofMethod n)
  | relatedOwner {c d : ClassId} {m n : MethodId} (hc : Gives g (.ofClass c))
      (hm : Gives g (.ofMethod m)) (h : (d, n) ∈ g.relatedMethods c m) : Gives g (.ofClass d)
  | family {c : ClassId} {m n : MethodId} (hc : Gives g (.ofClass c))
      (hm : Gives g (.ofMethod m)) (h : n ∈ g.family c m) : Gives g (.ofMethod n)

/-- The graph and the document fit together, and so do the parts of the graph. -/
structure Represents (g : Graph) (doc : Document) : Prop where
  laid : g.Laid doc.classes g.roots (List.range g.classCount)
  methods : g.methods.toList.map (fun i => (i.name, i.desc, i.access)) =
    doc.methods.map fun d => (d.name, d.desc, d.access)
  field_once : ∀ f < g.fields.size, ∀ c,
    (g.classInfo c).fields.count f = if c = (g.field f).owner then 1 else 0
  method_once : ∀ m < g.methodCount, ∀ c,
    (g.classInfo c).methods.count m = if c = (g.method m).owner then 1 else 0
  classOf?_iff : ∀ name c, g.classOf? name = some c ↔ c < g.classCount ∧ g.className c = name
  methodIn?_iff : ∀ c key m, g.methodIn? c key = some m ↔
    ∃ before after, (g.classInfo c).methods = before ++ m :: after ∧ (g.method m).key = key ∧
      ∀ n ∈ after, (g.method n).key ≠ key
  super?_eq : ∀ c < g.classCount,
    (g.kinOf c).super? = (g.classInfo c).superName?.bind g.classOf?
  interfaces_eq : ∀ c < g.classCount,
    (g.kinOf c).interfaces = (g.classInfo c).interfaceNames.filterMap g.classOf?
  count_subclasses : ∀ a c, (g.kinOf a).subclasses.count c =
    if (g.classInfo c).superName?.bind g.classOf? = some a then 1 else 0
  count_implementers : ∀ a c, (g.kinOf a).implementers.count c =
    ((g.classInfo c).interfaceNames.filterMap g.classOf?).count a
  related_nodup : ∀ m, (g.relatedTo m).Nodup
  related_irrefl : ∀ m, m ∉ g.relatedTo m
  related_symm : ∀ m n, n ∈ g.relatedTo m ↔ m ∈ g.relatedTo n
  mem_related : ∀ m n, n ∈ g.relatedTo m ↔ n ≠ m ∧ (g.Names doc m n ∨ g.Names doc n m)
  in_range : ∀ s, g.Gives s → g.Has s

/-! ## Members -/

theorem count_listed {l : List Nat} (hl : l.Nodup) {i : Nat} {p : Prop} [Decidable p]
    (h : i ∈ l ↔ p) : l.count i = if p then 1 else 0 := by
  rw [hl.count]
  exact if_congr h rfl rfl

/-- What is found under a key is the last method with this key. -/
theorem methodIn?_eq_some_iff : g.methodIn? c key = some m ↔
    ∃ before after, (g.classInfo c).methods = before ++ m :: after ∧ (g.method m).key = key ∧
      ∀ n ∈ after, (g.method n).key ≠ key := by
  unfold methodIn?
  rw [List.find?_eq_some_iff_append]
  constructor
  · rintro ⟨hkey, before, after, hsplit, hbefore⟩
    refine ⟨after.reverse, before.reverse, ?_, by simpa using hkey, ?_⟩
    · rw [← List.reverse_reverse (g.classInfo c).methods, hsplit]
      simp
    · intro n hn
      simpa using hbefore n (List.mem_reverse.1 hn)
  · rintro ⟨before, after, hsplit, hkey, hafter⟩
    refine ⟨by simpa using hkey, after.reverse, before.reverse, ?_, ?_⟩
    · rw [hsplit]
      simp
    · intro n hn
      simpa using hafter n (List.mem_reverse.1 hn)

/-! ## Links from both sides -/

theorem count_subclasses (hkin : g.kin = g.allKin.toArray) (a c : ClassId) :
    (g.kinOf a).subclasses.count c =
      if (g.classInfo c).superName?.bind g.classOf? = some a then 1 else 0 := by
  by_cases ha : a < g.classCount
  · rw [kinOf_of_lt hkin ha]
    apply count_listed (List.nodup_range.filter _)
    simp only [getD_named]
    rw [List.mem_filter, List.mem_range, named_length, decide_eq_true_eq]
    exact and_iff_right_of_imp fun h => (lt_of_namedKin (.inl h)).2
  · rw [kinOf_of_le hkin (Nat.not_lt.1 ha), if_neg]
    · rfl
    · intro h
      exact ha (lt_of_namedKin (c := c) (.inl h)).1

/-- A number stands as often in such a list as its own list has items. -/
theorem count_flatMap_range {α : Type} (xs : Nat → List α) (n c : Nat) :
    ((List.range n).flatMap fun d => (xs d).map fun _ => d).count c =
      if c < n then (xs c).length else 0 := by
  induction n with
  | zero => simp
  | succ n ih =>
    rw [List.range_succ, List.flatMap_append, List.count_append, ih, List.flatMap_singleton,
      List.map_const', List.count_replicate]
    by_cases hc : c = n
    · subst hc
      simp
    · have : (n == c) = false := by simpa using Ne.symm hc
      rw [this]
      have : c < n + 1 ↔ c < n := by omega
      simp [this]

theorem count_implementers (hkin : g.kin = g.allKin.toArray) (a c : ClassId) :
    (g.kinOf a).implementers.count c =
      ((g.classInfo c).interfaceNames.filterMap g.classOf?).count a := by
  have hnone : g.classCount ≤ a ∨ g.classCount ≤ c →
      ((g.classInfo c).interfaceNames.filterMap g.classOf?).count a = 0 := by
    intro h
    rw [List.count_eq_zero]
    intro hmem
    obtain ⟨ha, hc⟩ := lt_of_namedKin (c := c) (.inr hmem)
    rcases h with h | h
    · exact absurd ha (Nat.not_lt.2 h)
    · exact absurd hc (Nat.not_lt.2 h)
  by_cases ha : a < g.classCount
  · rw [kinOf_of_lt hkin ha]
    simp only [withHeirs, getD_named]
    rw [count_flatMap_range, named_length]
    split
    · rw [List.count_eq_length_filter]
      rfl
    · next hc => rw [hnone (.inr (Nat.not_lt.1 hc))]
  · rw [kinOf_of_le hkin (Nat.not_lt.1 ha), hnone (.inl (Nat.not_lt.1 ha))]
    rfl

/-! ## Numbers in range -/

theorem slot_lt (hg : g.Coherent) (hc : c < g.classCount) (h : d ∈ g.slot c m) :
    d < g.classCount := by
  unfold slot at h
  split at h
  · rwa [List.mem_singleton.1 h]
  · rcases List.mem_cons.1 h with rfl | h
    · exact hc
    · obtain ⟨hne, hreached⟩ := (mem_spread (neighbours_lt hg)).1 (List.mem_filter.1 h).1
      rcases ReflTransGen.cases_tail hreached with rfl | ⟨b, _, hbd⟩
      · exact absurd rfl hne
      · exact neighbours_lt hg _ _ hbd

theorem mem_relatedMethods (h : (d, n) ∈ g.relatedMethods c m) :
    d = (g.method n).owner ∧ ∃ k, n ∈ g.relatedTo k := by
  unfold relatedMethods at h
  split at h
  · cases h
  · next own _ =>
    obtain ⟨r, hr, heq⟩ := List.mem_map.1 h
    obtain ⟨rfl, rfl⟩ := Prod.mk.inj heq
    exact ⟨rfl, own, hr⟩

theorem Coherent.methodIn?_lt (hg : g.Coherent) (h : g.methodIn? c key = some m) :
    m < g.methodCount :=
  ((hg.mem_methods _ _).1 (methodIn?_eq_some h).1).1

theorem lt_of_mem_visitsFrom {found : List MethodId} {agenda : List (ClassId × MethodId)}
    (h : (d, n) ∈ g.visitsFrom found agenda) : n < g.methodCount := by
  fun_induction visitsFrom g found agenda with
  | case1 => cases h
  | case2 _ _ _ _ _ ih => exact ih h
  | case3 found c m agenda hm ih =>
    rw [not_or, Nat.not_le] at hm
    rcases List.mem_cons.1 h with heq | h
    · obtain ⟨rfl, rfl⟩ := Prod.mk.inj heq
      exact hm.2
    · exact ih h

theorem family_lt (hg : g.Coherent) (h : n ∈ g.family c m) : n < g.methodCount := by
  rw [mem_family_iff] at h
  obtain ⟨⟨d, k⟩, hvisit, hn⟩ := List.mem_flatMap.1 h
  rcases List.mem_cons.1 hn with rfl | hn
  · exact lt_of_mem_visitsFrom hvisit
  · obtain ⟨e, _, he⟩ := List.mem_filterMap.1 hn
    exact hg.methodIn?_lt he

/-- No question about symbols of the graph leads out of it. -/
theorem Built.has_of_gives {outline : List (Option ClassId × ClassDecl)} (hb : g.Built outline)
    (hg : g.Coherent) (h : g.Gives s) : g.Has s := by
  induction h with
  | own h => exact h
  | root h => exact mem_classIds.1 (List.mem_filter.1 h).1
  | byName h => exact (classOf?_eq_some h).1
  | member h =>
    obtain ⟨c, _, hm⟩ := Option.bind_eq_some_iff.1 h
    exact hg.methodIn?_lt hm
  | inner _ h ih =>
    rw [hb.inner_eq ih] at h
    have hlt := List.lt_add_of_mem_findIdxs _ h
    rwa [List.length_map, ← hb.classCount_eq] at hlt
  | outer _ h ih => exact Nat.lt_trans (hg.outer_lt _ _ h) ih
  | field _ h => exact ((hg.mem_fields _ _).1 h).1
  | method _ h => exact ((hg.mem_methods _ _).1 h).1
  | declared _ h => exact hg.methodIn?_lt h
  | fieldOwner _ ih => exact hg.field_owner_lt _ ih
  | methodOwner _ ih => exact hg.owner_lt _ ih
  | supertype _ h => exact hg.supertypes_lt _ _ h
  | subtype _ h => exact hg.subtypes_lt _ _ h
  | related _ h => exact hg.related_lt _ _ h
  | ancestor _ h => exact neighbours_lt hg _ _ (List.mem_append_left _ h)
  | descendant _ h => exact @neighbours_lt _ "" hg _ _ (List.mem_append_right _ h)
  | slot _ _ h ih => exact slot_lt hg ih h
  | relatedMethod _ _ h =>
    obtain ⟨_, k, hk⟩ := mem_relatedMethods h
    exact hg.related_lt _ _ hk
  | relatedOwner _ _ h =>
    obtain ⟨rfl, k, hk⟩ := mem_relatedMethods h
    exact hg.owner_lt _ (hg.related_lt _ _ hk)
  | family _ _ h => exact family_lt hg h

/-! ## The main result -/

theorem Built.relatedTo_nodup {outline : List (Option ClassId × ClassDecl)} (hb : g.Built outline)
    (m : MethodId) : (g.relatedTo m).Nodup := by
  rw [hb.relatedTo_eq]
  split
  · exact nodup_eraseDups _
  · exact List.nodup_nil

theorem numberMethods_map_decl (id : Nat) (outline : List (Option ClassId × ClassDecl)) :
    (numberMethods id outline).map (fun i => (i.name, i.desc, i.access)) =
      (outline.flatMap (·.2.methods)).map fun d => (d.name, d.desc, d.access) := by
  induction outline generalizing id with
  | nil => rfl
  | cons e rest ih => simp [numberMethods, ih]

theorem names_outline (doc : Document) :
    doc.outline.map (·.2.name) = doc.preorder.map (·.name) := by
  unfold Document.preorder Document.outline
  rw [← map_outlineAll none 0, List.map_map]
  rfl

theorem methods_outline (doc : Document) :
    doc.outline.flatMap (·.2.methods) = doc.methods := by
  unfold Document.methods Document.preorder Document.outline
  rw [← map_outlineAll none 0, List.flatMap_map]

theorem represents_of_ofDocument {source : String} {doc : Document}
    (h : ofDocument source doc = .ok g) : g.Represents doc := by
  have hb := built_of_ofDocument h
  have hg := coherent_of_ofDocument h
  have hrelated : ∀ m n, n ∈ g.relatedTo m ↔ n ≠ m ∧ (g.Names doc m n ∨ g.Names doc n m) := by
    intro m n
    rw [hb.mem_relatedTo, mem_relations, mem_relations, methods_outline, ne_comm (a := m),
      ← and_or_left]
    rfl
  refine
    { laid := laid_of_ofDocument h
      methods := ?_
      field_once := ?_
      method_once := ?_
      classOf?_iff := ?_
      methodIn?_iff := fun c key m => methodIn?_eq_some_iff
      super?_eq := ?_
      interfaces_eq := ?_
      count_subclasses := count_subclasses hb.kin
      count_implementers := count_implementers hb.kin
      related_nodup := hb.relatedTo_nodup
      related_irrefl := fun m hm => ((hrelated m m).1 hm).1 rfl
      related_symm := fun m n => ⟨hg.related_symm m n, hg.related_symm n m⟩
      mem_related := hrelated
      in_range := fun s => hb.has_of_gives hg }
  · rw [hb.methods, ← methods_outline]
    exact numberMethods_map_decl 0 doc.outline
  · intro f hf c
    apply count_listed (hb.nodup_fields c)
    rw [hg.mem_fields, and_iff_right hf, eq_comm]
  · intro m hm c
    apply count_listed (hb.nodup_methods c)
    rw [hg.mem_methods, and_iff_right hm, eq_comm]
  · intro name c
    exact hg.classOf?_iff
  · intro c hc
    rw [kinOf_of_lt hb.kin hc]
    rfl
  · intro c hc
    rw [kinOf_of_lt hb.kin hc]
    rfl

theorem ofDocument_eq_error_iff {source : String} {doc : Document} :
    (∃ problem, ofDocument source doc = .error problem) ↔
      ¬(doc.preorder.map (·.name)).Nodup := by
  have hnone : firstRepeated? [] (doc.outline.map (·.2.name)) = none ↔
      (doc.preorder.map (·.name)).Nodup := by
    rw [firstRepeated?_eq_none, names_outline]
    exact and_iff_left fun _ _ => List.not_mem_nil
  rw [← hnone]
  unfold ofDocument
  simp only
  split
  · next hname => simp [hname]
  · next hname => simp [hname]

/-- The class that is refused is the first one whose name stood before. -/
theorem of_ofDocument_error {source : String} {doc : Document} {problem : Problem}
    (h : ofDocument source doc = .error problem) :
    ∃ before d after, doc.preorder = before ++ d :: after ∧ (before.map (·.name)).Nodup ∧
      d.name ∈ before.map (·.name) ∧
      problem = .format source 0 (.duplicateClass d.name) := by
  unfold ofDocument at h
  simp only at h
  split at h
  · next name hname =>
    obtain rfl := Except.error.inj h
    rw [names_outline] at hname
    obtain ⟨front, rest, hnames, hd, -, hmem⟩ := of_firstRepeated? hname
    obtain ⟨before, after', hsplit, rfl, hafter⟩ := List.map_eq_append_iff.1 hnames
    obtain ⟨d, after, rfl, rfl, rfl⟩ := List.map_eq_cons_iff.1 hafter
    exact ⟨before, d, after, hsplit, hd, hmem.resolve_left List.not_mem_nil, rfl⟩
  · cases h

/-- Loading makes a graph in which everything fits together, or nothing: it refuses just the
documents with two classes of one name, wherever they stand, and says which name that is. -/
theorem documents_load_coherently (source : String) (doc : Document) :
    ((∃ problem, ofDocument source doc = .error problem) ↔
      ¬(doc.preorder.map (·.name)).Nodup) ∧
    (∀ problem, ofDocument source doc = .error problem →
      ∃ before d after, doc.preorder = before ++ d :: after ∧ (before.map (·.name)).Nodup ∧
        d.name ∈ before.map (·.name) ∧
        problem = .format source 0 (.duplicateClass d.name)) ∧
    ∀ g, ofDocument source doc = .ok g → g.Represents doc :=
  ⟨ofDocument_eq_error_iff, fun _ => of_ofDocument_error, fun _ => represents_of_ofDocument⟩

/-- Class `a` extends itself, names an interface twice that comes only later, and holds a class
that extends it. Two methods of `a` have one key; the method of `b` lists them, itself and a
method of a class that is not there. -/
def tangled : Document :=
  ⟨[{ name := "a", superName? := some "a", interfaceNames := ["b", "x", "b"],
      fields := [⟨"f", "I", 0⟩],
      methods := [⟨"m", "()V", 0, []⟩, ⟨"m", "()V", staticBit, []⟩],
      inner := [{ name := "a$1", superName? := some "a" }] },
    { name := "b", access := interfaceBit,
      methods := [⟨"n", "()V", 0, [⟨"a", "m", "()V"⟩, ⟨"b", "n", "()V"⟩, ⟨"x", "m", "()V"⟩]⟩] }]⟩

def tangledGraph : Graph := (ofDocument "" tangled).toOption.getD {}

theorem documents_load_coherently_tangled :
    tangledGraph.Represents tangled ∧
    ∃ problem, ofDocument "" ⟨tangled.classes ++ [{ name := "a$1" }]⟩ = .error problem := by
  constructor
  · exact (documents_load_coherently "" tangled).2.2 tangledGraph rfl
  · exact (documents_load_coherently "" _).1.2 (by decide)

/-- The method that was declared last is related, and the interface has `a` twice. -/
example : tangledGraph.relatedTo 2 = [1] ∧ tangledGraph.relatedTo 1 = [2] ∧
    tangledGraph.relatedTo 0 = [] ∧ (tangledGraph.kinOf 2).implementers = [0, 0] ∧
    (tangledGraph.kinOf 0).subclasses = [0, 1] ∧ (tangledGraph.classInfo 0).inner = [1] := by
  cbv

end Graph

end StableNames
