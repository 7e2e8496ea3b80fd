-- Documents one after the other. The classes of the second one get the
-- numbers behind those of the first, and so do its fields and methods. If
-- neither names a class of the other one, then the graphs of both are parts
-- of the graph of them together.
import StableNames.Proofs.Graph.Parts
import StableNames.Proofs.Graph.Versions

namespace StableNames

/-! ## Lists with a stretch in the middle -/

section Middle

variable {α : Type} {xs ys ys' zs : List α} {x : α} {i j n : Nat}

theorem getElem?_middle (hj : j < ys.length) : (xs ++ ys ++ zs)[xs.length + j]? = ys[j]? := by
  rw [List.append_assoc, List.getElem?_append_right (Nat.le_add_right _ _),
    Nat.add_sub_cancel_left, List.getElem?_append_left hj]

/-- An item of a list stands as it was moved where the list was moved to. -/
theorem getElem?_moved {bare moved : α → α} (hxs : xs.length = n)
    (hys : ys'.map bare = ys.map moved) (hj : ys[j]? = some x) :
    ∃ y, (xs ++ ys' ++ zs)[n + j]? = some y ∧ bare y = moved x := by
  subst hxs
  have hlength : ys'.length = ys.length := by
    simpa using congrArg List.length hys
  have hlt : j < ys'.length := hlength ▸ (List.getElem?_eq_some_iff.1 hj).1
  have hget := congrArg (·[j]?) hys
  simp only [List.getElem?_map, hj, List.getElem?_eq_getElem hlt, Option.map_some,
    Option.some.injEq] at hget
  exact ⟨ys'[j], by rw [getElem?_middle hlt, List.getElem?_eq_getElem hlt], hget⟩

/-- Every item stands in the middle or on one of the sides. -/
theorem middle_cases (hi : i < (xs ++ ys ++ zs).length) :
    (∃ j < ys.length, i = xs.length + j) ∨ ∃ x ∈ xs ++ zs, (xs ++ ys ++ zs)[i]? = some x := by
  rw [List.length_append, List.length_append] at hi
  by_cases hxs : i < xs.length
  · refine .inr ⟨xs[i], List.mem_append_left _ (List.getElem_mem hxs), ?_⟩
    rw [List.append_assoc, List.getElem?_append_left hxs, List.getElem?_eq_getElem hxs]
  by_cases hys : i < xs.length + ys.length
  · exact .inl ⟨i - xs.length, by omega, by omega⟩
  · have hzs : i - (xs ++ ys).length < zs.length := by
      rw [List.length_append]
      omega
    refine .inr ⟨zs[i - (xs ++ ys).length], List.mem_append_right _ (List.getElem_mem hzs), ?_⟩
    rw [List.getElem?_append_right (by rw [List.length_append]; omega),
      List.getElem?_eq_getElem hzs]

end Middle

/-! ## Outlines -/

/-- The entry of an outline, with the number of the class around it moved up. -/
def moveEntry (offset : Nat) (e : Option ClassId × ClassDecl) : Option ClassId × ClassDecl :=
  (e.1.map (offset + ·), e.2)

theorem map_moveEntry_zero (outline : List (Option ClassId × ClassDecl)) :
    outline.map (moveEntry 0) = outline := by
  rw [show moveEntry 0 = id by funext ⟨outer?, d⟩; simp [moveEntry], List.map_id]

theorem outlineAll_append (outer? : Option ClassId) (id : ClassId) (ds ds' : List ClassDecl) :
    outlineAll outer? id (ds ++ ds') =
      outlineAll outer? id ds ++ outlineAll outer? (id + (outlineAll outer? id ds).length) ds' := by
  induction ds generalizing id with
  | nil => simp [outlineAll]
  | cons d ds ih =>
    rw [List.cons_append, outlineAll, outlineAll, ih]
    simp only [List.append_assoc, List.length_append, Nat.add_assoc]

mutual

theorem outline_moved (offset : Nat) (outer? : Option ClassId) (id : ClassId) (d : ClassDecl) :
    d.outline (outer?.map (offset + ·)) (offset + id) =
      (d.outline outer? id).map (moveEntry offset) := by
  obtain ⟨_, _, _, _, _, _, _, inner⟩ := d
  rw [ClassDecl.outline, ClassDecl.outline, List.map_cons, Nat.add_assoc]
  exact congrArg _ (outlineAll_moved offset (some id) (id + 1) inner)

theorem outlineAll_moved (offset : Nat) (outer? : Option ClassId) (id : ClassId)
    (ds : List ClassDecl) :
    outlineAll (outer?.map (offset + ·)) (offset + id) ds =
      (outlineAll outer? id ds).map (moveEntry offset) := by
  match ds with
  | [] => rfl
  | d :: rest =>
    rw [outlineAll, outlineAll, List.map_append, outline_moved offset outer? id d,
      List.length_map, Nat.add_assoc, outlineAll_moved offset outer? _ rest]

end

/-- The classes of both documents, those of the first one first. -/
def Document.followedBy (doc next : Document) : Document := ⟨doc.classes ++ next.classes⟩

theorem Document.outline_followedBy (doc next : Document) :
    (doc.followedBy next).outline =
      doc.outline ++ next.outline.map (moveEntry doc.outline.length) := by
  unfold outline followedBy
  rw [outlineAll_append, ← outlineAll_moved, Option.map_none, Nat.zero_add, Nat.add_zero]

theorem flatMap_methods_moved (offset : Nat) (pre mid post : List (Option ClassId × ClassDecl)) :
    (pre ++ mid.map (moveEntry offset) ++ post).flatMap (·.2.methods) =
      pre.flatMap (·.2.methods) ++ mid.flatMap (·.2.methods) ++ post.flatMap (·.2.methods) := by
  rw [List.flatMap_append, List.flatMap_append, List.flatMap_map]
  rfl

/-! ## Numbers behind an offset -/

/-- The offset behind all classes of an outline. -/
def Offset.behind (outline : List (Option ClassId × ClassDecl)) : Offset where
  classes := outline.length
  fields := (outline.flatMap (·.2.fields)).length
  methods := (outline.flatMap (·.2.methods)).length

section Numbering

variable (outer outer' : List (Option ClassId)) (o : Offset) (id field method : Nat)
  (xs ys : List (Option ClassId × ClassDecl))

theorem numberClasses_append :
    numberClasses outer id field method (xs ++ ys) = numberClasses outer id field method xs ++
      numberClasses outer (id + (Offset.behind xs).classes) (field + (Offset.behind xs).fields)
        (method + (Offset.behind xs).methods) ys := by
  induction xs generalizing id field method with
  | nil => rfl
  | cons e xs ih =>
    rw [List.cons_append, numberClasses, numberClasses, ih]
    simp [Offset.behind, Nat.add_assoc, Nat.add_comm 1]

theorem numberFields_append :
    numberFields id (xs ++ ys) = numberFields id xs ++ numberFields (id + xs.length) ys := by
  induction xs generalizing id with
  | nil => rfl
  | cons e xs ih =>
    rw [List.cons_append, numberFields, numberFields, ih]
    simp [Nat.add_assoc, Nat.add_comm 1]

theorem numberMethods_append :
    numberMethods id (xs ++ ys) = numberMethods id xs ++ numberMethods (id + xs.length) ys := by
  induction xs generalizing id with
  | nil => rfl
  | cons e xs ih =>
    rw [List.cons_append, numberMethods, numberMethods, ih]
    simp [Nat.add_assoc, Nat.add_comm 1]

theorem numberClasses_moved :
    (numberClasses outer' (o.classes + id) (o.fields + field) (o.methods + method)
        (xs.map (moveEntry o.classes))).map ClassInfo.bare =
      (numberClasses outer id field method xs).map (ClassInfo.moved o) := by
  induction xs generalizing id field method with
  | nil => rfl
  | cons e xs ih =>
    rw [List.map_cons, numberClasses, numberClasses, List.map_cons, List.map_cons, Nat.add_assoc,
      Nat.add_assoc, Nat.add_assoc]
    refine congrArg₂ List.cons ?_ (ih _ _ _)
    simp [ClassInfo.bare, ClassInfo.moved, moveEntry, List.map_add_range']

theorem numberFields_moved :
    numberFields (o.classes + id) (xs.map (moveEntry o.classes)) =
      (numberFields id xs).map (FieldInfo.moved o) := by
  induction xs generalizing id with
  | nil => rfl
  | cons e xs ih =>
    rw [List.map_cons, numberFields, numberFields, List.map_append, List.map_map, Nat.add_assoc, ih]
    rfl

theorem numberMethods_moved :
    numberMethods (o.classes + id) (xs.map (moveEntry o.classes)) =
      (numberMethods id xs).map (MethodInfo.moved o) := by
  induction xs generalizing id with
  | nil => rfl
  | cons e xs ih =>
    rw [List.map_cons, numberMethods, numberMethods, List.map_append, List.map_map, Nat.add_assoc,
      ih]
    rfl

end Numbering

/-! ## Links by name -/

/-- What a class names: the classes it stands under and the owners of related methods. -/
def ClassDecl.references (d : ClassDecl) : List String :=
  d.superName?.toList ++ d.interfaceNames ++ d.methods.flatMap fun m => m.related.map (·.owner)

theorem ClassDecl.owner_mem_references {d : ClassDecl} {m : MethodDecl} {r : Member}
    (hm : m ∈ d.methods) (hr : r ∈ m.related) : r.owner ∈ d.references :=
  List.mem_append_right _ (List.mem_flatMap.2 ⟨m, hm, List.mem_map_of_mem hr⟩)

namespace Graph

open Reach

variable {g g' : Graph} {outline : List (Option ClassId × ClassDecl)} {a c : ClassId}
  {m n k : MethodId}

namespace Built

/-- A class stands under those that it names. -/
theorem mem_supertypes_iff (h : g.Built outline) (hg : g.Coherent) :
    a ∈ g.supertypes c ↔ c < g.classCount ∧ a < g.classCount ∧
      g.className a ∈ (g.classInfo c).superName?.toList ++ (g.classInfo c).interfaceNames := by
  rw [mem_supertypes h.kin]
  constructor
  · intro hmem
    obtain ⟨ha, hc⟩ := lt_of_namedKin hmem
    refine ⟨hc, ha, ?_⟩
    simp only [namedKin, Option.bind_eq_some_iff, List.mem_filterMap, hg.classOf?_iff] at hmem
    rcases hmem with ⟨_, hname, _, rfl⟩ | ⟨_, hname, _, rfl⟩
    · exact List.mem_append_left _ (Option.mem_toList.2 hname)
    · exact List.mem_append_right _ hname
  · rintro ⟨_, ha, hname⟩
    simp only [namedKin, Option.bind_eq_some_iff, List.mem_filterMap, hg.classOf?_iff]
    rcases List.mem_append.1 hname with hname | hname
    · exact .inl ⟨_, Option.mem_toList.1 hname, ha, rfl⟩
    · exact .inr ⟨_, hname, ha, rfl⟩

/-- A method lists others by owner and key. -/
theorem mem_relations_iff (hg : g.Coherent) (hk : g.KeysDistinct) {docs : List MethodDecl} :
    (m, n) ∈ g.relations docs ↔ n ≠ m ∧ n < g.methodCount ∧ ∃ d, docs[m]? = some d ∧
      ∃ r ∈ d.related, r.owner = g.className (g.method n).owner ∧
        methodKey r.name r.desc = (g.method n).key := by
  have hof : ∀ r : Member, g.methodOf? r = some n ↔ n < g.methodCount ∧
      r.owner = g.className (g.method n).owner ∧
        methodKey r.name r.desc = (g.method n).key := by
    intro r
    unfold methodOf?
    simp only [Option.bind_eq_some_iff, hg.classOf?_iff, methodIn?_iff hg hk]
    constructor
    · rintro ⟨_, ⟨_, hname⟩, hn, rfl, hkey⟩
      exact ⟨hn, hname.symm, hkey.symm⟩
    · rintro ⟨hn, hname, hkey⟩
      exact ⟨_, ⟨hg.owner_lt n hn, hname.symm⟩, hn, rfl, hkey.symm⟩
  rw [mem_relations]
  constructor
  · rintro ⟨hne, d, hd, r, hr, hro⟩
    obtain ⟨hn, hnamed⟩ := (hof r).1 hro
    exact ⟨hne, hn, d, hd, r, hr, hnamed⟩
  · rintro ⟨hne, hn, d, hd, r, hr, hnamed⟩
    exact ⟨hne, d, hd, r, hr, (hof r).2 ⟨hn, hnamed⟩⟩

/-- What a class stands under is named in the document. -/
theorem mem_references (h : g.Built outline) (hg : g.Coherent) (ha : a ∈ g.supertypes c) :
    ∃ e, outline[c]? = some e ∧ g.className a ∈ e.2.references := by
  obtain ⟨hc, _, hname⟩ := (h.mem_supertypes_iff hg).1 ha
  obtain ⟨e, he, _, hsuper, hinterfaces⟩ := h.exists_entry hc
  rw [hsuper, hinterfaces] at hname
  exact ⟨e, he, List.mem_append_left _ hname⟩

theorem getElem?_names (h : g.Built outline) (hc : c < g.classCount) :
    (outline.map (·.2.name))[c]? = some (g.className c) := by
  obtain ⟨e, he, hname, _⟩ := h.exists_entry hc
  rw [List.getElem?_map, he, hname]
  rfl

end Built

/-! ## Parts of a joined graph -/

/-- The graph `g` of a stretch of an outline and the graph `g'` of the whole of it, where no
class of the stretch names one outside, or the other way round. -/
structure Stretch (pre mid post : List (Option ClassId × ClassDecl)) (g g' : Graph) :
    Prop where
  built : g.Built mid
  built' : g'.Built (pre ++ mid.map (moveEntry pre.length) ++ post)
  coherent : g.Coherent
  coherent' : g'.Coherent
  keys : g.KeysDistinct
  keys' : g'.KeysDistinct
  out : ∀ e ∈ mid, ∀ name ∈ e.2.references, name ∉ (pre ++ post).map (·.2.name)
  into : ∀ e ∈ pre ++ post, ∀ name ∈ e.2.references, name ∉ mid.map (·.2.name)

namespace Stretch

variable {pre mid post : List (Option ClassId × ClassDecl)} (h : Stretch pre mid post g g')

include h

theorem placed : Placed (.behind pre) g g' := by
  have hlength : (mid.map (moveEntry pre.length)).length = mid.length := List.length_map _
  have hclass : ∀ c < g.classCount, (Offset.behind pre).classes + c < g'.classCount := by
    intro c hc
    rw [h.built.classCount_eq] at hc
    rw [h.built'.classCount_eq, List.length_append, List.length_append, hlength]
    exact Nat.lt_add_right _ (Nat.add_lt_add_left hc _)
  refine ⟨hclass, ?method_lt, ?classInfo, ?field, ?method⟩
  case method_lt =>
    intro m hm
    rw [h.built.methodCount_eq] at hm
    rw [h.built'.methodCount_eq, flatMap_methods_moved, List.length_append, List.length_append]
    exact Nat.lt_add_right _ (Nat.add_lt_add_left hm _)
  case classInfo =>
    intro c hc
    have hget := h.built'.getElem?_numberClasses (hclass c hc)
    rw [numberClasses_append, numberClasses_append, Nat.zero_add, Nat.zero_add, Nat.zero_add]
      at hget
    obtain ⟨y, hy, heq⟩ := getElem?_moved (numberClasses_length _ 0 0 0 pre)
      (numberClasses_moved _ _ (.behind pre) 0 0 0 mid) (h.built.getElem?_numberClasses hc)
    cases hget.symm.trans hy
    exact heq
  case field =>
    intro f hf
    have hget := getElem?_fields hf
    rw [h.built.fields, List.getElem?_toArray] at hget
    have hmoved := (List.map_id _).trans (numberFields_moved (.behind pre) 0 mid)
    obtain ⟨y, hy, heq⟩ := getElem?_moved (length_numberFields 0 pre) hmoved hget
    unfold Graph.field at heq ⊢
    rw [Array.getD_eq_getD_getElem?, h.built'.fields, List.getElem?_toArray, numberFields_append,
      numberFields_append, Nat.zero_add, Nat.zero_add]
    exact (congrArg (·.getD default) hy).trans heq
  case method =>
    intro m hm
    have hget := getElem?_methods hm
    rw [h.built.methods, List.getElem?_toArray] at hget
    have hmoved := (List.map_id _).trans (numberMethods_moved (.behind pre) 0 mid)
    obtain ⟨y, hy, heq⟩ := getElem?_moved (length_numberMethods 0 pre) hmoved hget
    unfold Graph.method at heq ⊢
    rw [Array.getD_eq_getD_getElem?, h.built'.methods, List.getElem?_toArray,
      numberMethods_append, numberMethods_append, Nat.zero_add, Nat.zero_add]
    exact (congrArg (·.getD default) hy).trans heq

/-- A class whose name is none outside is one of the stretch. -/
theorem exists_class {c' : ClassId} (hc : c' < g'.classCount)
    (hname : g'.className c' ∉ (pre ++ post).map (·.2.name)) :
    ∃ c < g.classCount, c' = (Offset.behind pre).classes + c := by
  have hget := h.built'.getElem?_names hc
  rw [h.built'.classCount_eq] at hc
  rcases middle_cases hc with ⟨c, hlt, rfl⟩ | ⟨e, he, heq⟩
  · rw [List.length_map, ← h.built.classCount_eq] at hlt
    exact ⟨c, hlt, rfl⟩
  · rw [List.getElem?_map, heq, Option.map_some, Option.some.injEq] at hget
    exact absurd (List.mem_map.2 ⟨e, he, hget⟩) hname

/-- What a class of the stretch stands under has a name that is none outside. -/
theorem supertype_inside {c : ClassId} (hc : c < g.classCount) {a' : ClassId}
    (ha : a' ∈ g'.supertypes ((Offset.behind pre).classes + c)) :
    ∃ a < g.classCount, a' = (Offset.behind pre).classes + a := by
  refine h.exists_class (h.coherent'.supertypes_lt _ _ ha) ?_
  obtain ⟨e', he', href⟩ := h.built'.mem_references h.coherent' ha
  have hlt : c < (mid.map (moveEntry pre.length)).length := by
    rw [List.length_map, ← h.built.classCount_eq]
    exact hc
  rw [show (Offset.behind pre).classes = pre.length from rfl, getElem?_middle hlt,
    List.getElem?_map] at he'
  obtain ⟨e, he, rfl⟩ := Option.map_eq_some_iff.1 he'
  exact h.out e (List.mem_of_getElem? he) _ href

theorem className_mem {c : ClassId} (hc : c < g.classCount) :
    g'.className ((Offset.behind pre).classes + c) ∈ mid.map (·.2.name) := by
  rw [h.placed.className_eq hc]
  exact List.mem_of_getElem? (h.built.getElem?_names hc)

/-- What stands under a class of the stretch names it, so it is not outside. -/
theorem subtype_inside {a : ClassId} (ha : a < g.classCount) {c' : ClassId}
    (hsub : (Offset.behind pre).classes + a ∈ g'.supertypes c') :
    ∃ c < g.classCount, c' = (Offset.behind pre).classes + c := by
  obtain ⟨e, he, href⟩ := h.built'.mem_references h.coherent' hsub
  have hlt := (List.getElem?_eq_some_iff.1 he).1
  rcases middle_cases hlt with ⟨c, hc, rfl⟩ | ⟨e', he', heq⟩
  · rw [List.length_map, ← h.built.classCount_eq] at hc
    exact ⟨c, hc, rfl⟩
  · cases he.symm.trans heq
    exact absurd (h.className_mem ha) (h.into e he' _ href)

theorem mem_supertypes_moved {a c : ClassId} (hc : c < g.classCount) (ha : a < g.classCount) :
    (Offset.behind pre).classes + a ∈ g'.supertypes ((Offset.behind pre).classes + c) ↔
      a ∈ g.supertypes c := by
  have hp := h.placed
  rw [h.built'.mem_supertypes_iff h.coherent', h.built.mem_supertypes_iff h.coherent,
    hp.className_eq ha, hp.supers_eq hc]
  simp only [hp.class_lt c hc, hp.class_lt a ha, hc, ha]

theorem supertypes_carried : Carried (Offset.behind pre).classes g.classCount
    (Next g.supertypes) (Next g'.supertypes) := by
  refine ⟨fun c _ a ha => h.coherent.supertypes_lt c a ha, ?_⟩
  intro c hc a'
  constructor
  · intro ha'
    obtain ⟨a, ha, rfl⟩ := h.supertype_inside hc ha'
    exact ⟨a, (h.mem_supertypes_moved hc ha).1 ha', rfl⟩
  · rintro ⟨a, ha, rfl⟩
    exact (h.mem_supertypes_moved hc (h.coherent.supertypes_lt c a ha)).2 ha

theorem subtypes_carried : Carried (Offset.behind pre).classes g.classCount
    (Next g.subtypes) (Next g'.subtypes) := by
  refine ⟨fun a _ c hc => h.coherent.subtypes_lt a c hc, ?_⟩
  intro a ha c'
  unfold Next
  simp only [h.coherent.mem_subtypes, h.coherent'.mem_subtypes]
  constructor
  · intro hc'
    obtain ⟨c, hc, rfl⟩ := h.subtype_inside ha hc'
    exact ⟨c, (h.mem_supertypes_moved hc ha).1 hc', rfl⟩
  · rintro ⟨c, hc, rfl⟩
    have hlt := h.coherent.subtypes_lt a c ((h.coherent.mem_subtypes a c).2 hc)
    exact (h.mem_supertypes_moved hlt ha).2 hc

/-! ## Related methods -/

/-- What a method of the stretch lists is a method of the stretch. -/
theorem listed_inside {m : MethodId} (hm : m < g.methodCount) {n' : MethodId}
    (hlisted : ((Offset.behind pre).methods + m, n') ∈
      g'.relations ((pre ++ mid.map (moveEntry pre.length) ++ post).flatMap (·.2.methods))) :
    ∃ n < g.methodCount, n' = (Offset.behind pre).methods + n := by
  obtain ⟨_, hlt, d, hd, r, hr, howner, _⟩ :=
    (Built.mem_relations_iff h.coherent' h.keys').1 hlisted
  rw [h.built.methodCount_eq] at hm
  rw [flatMap_methods_moved, show (Offset.behind pre).methods =
    (pre.flatMap (·.2.methods)).length from rfl, getElem?_middle hm] at hd
  obtain ⟨e, he, hde⟩ := List.mem_flatMap.1 (List.mem_of_getElem? hd)
  have hout := h.out e he _ (ClassDecl.owner_mem_references hde hr)
  rw [howner] at hout
  obtain ⟨c, hc, hco⟩ := h.exists_class (h.coherent'.owner_lt _ hlt) hout
  obtain ⟨n, hn, _, rfl⟩ := h.placed.exists_method h.coherent h.coherent' hc hlt hco
  exact ⟨n, hn, rfl⟩

/-- What lists a method of the stretch is a method of the stretch. -/
theorem listing_inside {n : MethodId} (hn : n < g.methodCount) {m' : MethodId}
    (hlisting : (m', (Offset.behind pre).methods + n) ∈
      g'.relations ((pre ++ mid.map (moveEntry pre.length) ++ post).flatMap (·.2.methods))) :
    ∃ m < g.methodCount, m' = (Offset.behind pre).methods + m := by
  obtain ⟨_, _, d, hd, r, hr, howner, _⟩ :=
    (Built.mem_relations_iff h.coherent' h.keys').1 hlisting
  rw [flatMap_methods_moved] at hd
  rcases middle_cases (List.getElem?_eq_some_iff.1 hd).1 with ⟨m, hm, rfl⟩ | ⟨d', hd', heq⟩
  · rw [← h.built.methodCount_eq] at hm
    exact ⟨m, hm, rfl⟩
  · cases hd.symm.trans heq
    rw [← List.flatMap_append] at hd'
    obtain ⟨e, he, hde⟩ := List.mem_flatMap.1 hd'
    have hinto := h.into e he _ (ClassDecl.owner_mem_references hde hr)
    rw [howner, h.placed.owner_eq hn] at hinto
    exact absurd (h.className_mem (h.coherent.owner_lt n hn)) hinto

theorem mem_relations_moved {m n : MethodId} (hm : m < g.methodCount) (hn : n < g.methodCount) :
    ((Offset.behind pre).methods + m, (Offset.behind pre).methods + n) ∈
        g'.relations ((pre ++ mid.map (moveEntry pre.length) ++ post).flatMap (·.2.methods)) ↔
      (m, n) ∈ g.relations (mid.flatMap (·.2.methods)) := by
  have hp := h.placed
  have hlt := hm
  rw [h.built.methodCount_eq] at hlt
  rw [Built.mem_relations_iff h.coherent' h.keys', Built.mem_relations_iff h.coherent h.keys,
    flatMap_methods_moved, hp.owner_eq hn, hp.className_eq (h.coherent.owner_lt n hn),
    hp.key_eq hn, show (Offset.behind pre).methods = (pre.flatMap (·.2.methods)).length from rfl,
    getElem?_middle hlt, ne_eq, Nat.add_left_cancel_iff]
  simp only [hn, show (pre.flatMap (·.2.methods)).length + n < g'.methodCount from
    hp.method_lt n hn]

theorem related_carried : Carried (Offset.behind pre).methods g.methodCount
    (fun m n => n ∈ g.relatedTo m) fun m n => n ∈ g'.relatedTo m := by
  refine ⟨fun m _ n hn => h.coherent.related_lt m n hn, ?_⟩
  intro m hm n'
  simp only [h.built.mem_relatedTo, h.built'.mem_relatedTo]
  constructor
  · rintro (hn' | hn')
    · obtain ⟨n, hn, rfl⟩ := h.listed_inside hm hn'
      exact ⟨n, .inl ((h.mem_relations_moved hm hn).1 hn'), rfl⟩
    · obtain ⟨n, hn, rfl⟩ := h.listing_inside hm hn'
      exact ⟨n, .inr ((h.mem_relations_moved hn hm).1 hn'), rfl⟩
  · rintro ⟨n, hmn | hnm, rfl⟩
    · exact .inl ((h.mem_relations_moved hm (h.built.lt_of_mem_relations hmn).2.1).2 hmn)
    · exact .inr ((h.mem_relations_moved (h.built.lt_of_mem_relations hnm).1 hm).2 hnm)

theorem part : Part (.behind pre) g g' where
  toPlaced := h.placed
  supertypes := h.supertypes_carried
  subtypes := h.subtypes_carried
  related := h.related_carried

end Stretch

end Graph

/-! ## Independent documents -/

namespace Document

/-- The names of the classes that stand in a document. -/
def declaredNames (doc : Document) : List String := doc.outline.map (·.2.name)

/-- No class declares two methods under one key. -/
def KeysDistinct (doc : Document) : Prop :=
  ∀ e ∈ doc.outline, (e.2.methods.map fun d => methodKey d.name d.desc).Nodup

instance (doc : Document) : Decidable doc.KeysDistinct := by
  unfold KeysDistinct
  infer_instance

/-- No class of the document names one of the other document, be it as what it stands under or
as the owner of a related method. -/
def NamesNoneOf (doc other : Document) : Prop :=
  ∀ e ∈ doc.outline, ∀ name ∈ e.2.references, name ∉ other.declaredNames

instance (doc other : Document) : Decidable (doc.NamesNoneOf other) := by
  unfold NamesNoneOf
  infer_instance

/-- All classes of the documents have different names, methods of a class have different keys,
and neither document names a class of the other one. -/
@[mk_iff]
structure Independent (doc next : Document) : Prop where
  names : (doc.declaredNames ++ next.declaredNames).Nodup
  keys : doc.KeysDistinct
  keys' : next.KeysDistinct
  apart : doc.NamesNoneOf next
  apart' : next.NamesNoneOf doc

instance (doc next : Document) : Decidable (doc.Independent next) :=
  decidable_of_iff' _ (independent_iff doc next)

variable {doc next : Document}

theorem declaredNames_followedBy :
    (doc.followedBy next).declaredNames = doc.declaredNames ++ next.declaredNames := by
  unfold declaredNames
  rw [outline_followedBy, List.map_append, List.map_map]
  rfl

theorem KeysDistinct.followedBy (h : doc.KeysDistinct) (h' : next.KeysDistinct) :
    (doc.followedBy next).KeysDistinct := by
  intro e he
  rw [outline_followedBy, List.mem_append] at he
  rcases he with he | he
  · exact h e he
  · obtain ⟨e', he', rfl⟩ := List.mem_map.1 he
    exact h' e' he'

theorem exists_ofDocument (source : String) (h : doc.declaredNames.Nodup) :
    ∃ g, Graph.ofDocument source doc = .ok g := by
  have hnone : firstRepeated? [] (doc.outline.map (·.2.name)) = none :=
    firstRepeated?_eq_none.2 ⟨h, fun _ _ => List.not_mem_nil⟩
  unfold Graph.ofDocument
  simp only [hnone]
  exact ⟨_, rfl⟩

end Document

/-- Methods with different numbers differ in their owners or in their keys. -/
theorem nodup_numberMethods (id : Nat) {outline : List (Option ClassId × ClassDecl)}
    (h : ∀ e ∈ outline, (e.2.methods.map fun d => methodKey d.name d.desc).Nodup) :
    ((numberMethods id outline).map fun i => (i.owner, i.key)).Nodup := by
  induction outline generalizing id with
  | nil => exact List.nodup_nil
  | cons e rest ih =>
    obtain ⟨hhead, hrest⟩ := List.forall_mem_cons.1 h
    rw [numberMethods, List.map_append, List.map_map, List.nodup_append]
    refine ⟨?_, ih (id + 1) hrest, ?_⟩
    · apply List.Nodup.of_map Prod.snd
      rw [List.map_map]
      exact hhead
    · intro p hp q hq heq
      obtain ⟨d, _, rfl⟩ := List.mem_map.1 hp
      obtain ⟨i, hi, rfl⟩ := List.mem_map.1 hq
      have howner : i.owner ∈ ownersFrom (id + 1) (rest.map (·.2.methods.length)) := by
        rw [← numberMethods_map_owner]
        exact List.mem_map.2 ⟨i, hi, rfl⟩
      have hle := (le_of_mem_ownersFrom howner).1
      have hid : id = i.owner := congrArg Prod.fst heq
      omega

namespace Graph

variable {g : Graph} {doc next : Document} {source : String}

theorem keysDistinct_of_ofDocument (hload : ofDocument source doc = .ok g)
    (h : doc.KeysDistinct) : g.KeysDistinct := by
  have hb := built_of_ofDocument hload
  have hnodup := nodup_numberMethods 0 h
  have hget : ∀ m < g.methodCount, ((numberMethods 0 doc.outline).map
      fun i => (i.owner, i.key))[m]? = some ((g.method m).owner, (g.method m).key) := by
    intro m hm
    rw [List.getElem?_map, ← List.getElem?_toArray, ← hb.methods, getElem?_methods hm]
    rfl
  intro m hm n hn howner hkey
  have hsame := hget m hm
  rw [howner, hkey, ← hget n hn] at hsame
  exact (List.getElem?_inj (List.getElem?_eq_some_iff.1 (hget m hm)).1 hnodup).1 hsame

theorem Built.behind_eq {outline : List (Option ClassId × ClassDecl)} (h : g.Built outline) :
    Offset.behind outline = ⟨g.classCount, g.fields.size, g.methodCount⟩ := by
  rw [h.classCount_eq, h.methodCount_eq, h.fields, List.size_toArray, length_numberFields]
  rfl

/-- The graphs of two documents and of both together, of which they are parts. -/
structure Joined (g g' whole : Graph) : Prop where
  coherent : g.Coherent
  coherent' : g'.Coherent
  coherent_whole : whole.Coherent
  keys : g.KeysDistinct
  keys' : g'.KeysDistinct
  keys_whole : whole.KeysDistinct
  part : Part ⟨0, 0, 0⟩ g whole
  part' : Part ⟨g.classCount, g.fields.size, g.methodCount⟩ g' whole
  classCount_eq : whole.classCount = g.classCount + g'.classCount

section Independent

variable {g' whole : Graph} (h : doc.Independent next)

include h

/-- The first document is a stretch of both. -/
theorem stretch_of_ofDocument (hload : ofDocument source doc = .ok g)
    (hwhole : ofDocument source (doc.followedBy next) = .ok whole) :
    Stretch [] doc.outline (next.outline.map (moveEntry doc.outline.length)) g whole := by
  have hw := built_of_ofDocument hwhole
  rw [Document.outline_followedBy] at hw
  refine ⟨built_of_ofDocument hload, ?built, coherent_of_ofDocument hload,
    coherent_of_ofDocument hwhole, keysDistinct_of_ofDocument hload h.keys,
    keysDistinct_of_ofDocument hwhole (h.keys.followedBy h.keys'), ?out, ?into⟩
  case built =>
    rw [List.length_nil, map_moveEntry_zero]
    exact hw
  case out =>
    have hafter : (next.outline.map (moveEntry doc.outline.length)).map (·.2.name) =
        next.declaredNames := List.map_map
    intro e he name hname
    rw [List.nil_append, hafter]
    exact h.apart e he name hname
  case into =>
    intro e he
    obtain ⟨e', he', rfl⟩ := List.mem_map.1 he
    exact h.apart' e' he'

/-- The second document is a stretch of both, behind the first one. -/
theorem stretch_of_ofDocument' (hload : ofDocument source next = .ok g')
    (hwhole : ofDocument source (doc.followedBy next) = .ok whole) :
    Stretch doc.outline next.outline [] g' whole := by
  have hw := built_of_ofDocument hwhole
  rw [Document.outline_followedBy] at hw
  refine ⟨built_of_ofDocument hload, ?built, coherent_of_ofDocument hload,
    coherent_of_ofDocument hwhole, keysDistinct_of_ofDocument hload h.keys',
    keysDistinct_of_ofDocument hwhole (h.keys.followedBy h.keys'), ?out, ?into⟩
  case built =>
    rw [List.append_nil]
    exact hw
  case out =>
    rw [List.append_nil]
    exact h.apart'
  case into =>
    rw [List.append_nil]
    exact h.apart

/-- Independent documents make a joined graph. -/
theorem exists_joined (source : String) :
    ∃ g g' whole, ofDocument source doc = .ok g ∧ ofDocument source next = .ok g' ∧
      ofDocument source (doc.followedBy next) = .ok whole ∧ Joined g g' whole := by
  have hnames := h.names
  rw [← Document.declaredNames_followedBy] at hnames
  obtain ⟨g, hload⟩ := Document.exists_ofDocument source (List.nodup_append.1 h.names).1
  obtain ⟨g', hload'⟩ := Document.exists_ofDocument source (List.nodup_append.1 h.names).2.1
  obtain ⟨whole, hwhole⟩ := Document.exists_ofDocument source hnames
  have hfirst := stretch_of_ofDocument h hload hwhole
  have hsecond := stretch_of_ofDocument' h hload' hwhole
  have hpart := hsecond.part
  rw [hfirst.built.behind_eq] at hpart
  refine ⟨g, g', whole, hload, hload', hwhole, hfirst.coherent, hsecond.coherent,
    hfirst.coherent', hfirst.keys, hsecond.keys, hfirst.keys', hfirst.part, hpart, ?_⟩
  rw [hsecond.built'.classCount_eq, hfirst.built.classCount_eq, hsecond.built.classCount_eq,
    List.append_nil, List.length_append, List.length_map]

end Independent

end Graph

end StableNames
