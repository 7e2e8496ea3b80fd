-- Links and families of a renamed graph. Searches go by numbers and by the
-- question which classes declare a method under one key. A renaming that
-- tells names apart changes neither, so every search finds the same numbers.
import StableNames.Proofs.Graph.Renaming

namespace StableNames

variable {ren : Renaming} {doc : Document} {g g' : Graph} {c d : ClassId} {m n : MethodId}

/-- Plain methods have equal keys after a faithful renaming only if they had before. -/
theorem Renaming.Faithful.methodKey_eq_iff (h : ren.Faithful doc) (hp : doc.PlainMethods)
    (hp' : (ren.document doc).PlainMethods) {p q : String × String} (hpm : p ∈ doc.methodNames)
    (hqm : q ∈ doc.methodNames) :
    methodKey (ren.ofMethod p.1 p.2) (ren.desc p.2) =
        methodKey (ren.ofMethod q.1 q.2) (ren.desc q.2) ↔
      methodKey p.1 p.2 = methodKey q.1 q.2 := by
  have hplain : ∀ x ∈ doc.methodNames, '(' ∉ (ren.ofMethod x.1 x.2).toList ∧
      (ren.desc x.2).toList.head? = some '(' := by
    intro x hx
    apply hp' (ren.ofMethod x.1 x.2, ren.desc x.2)
    rw [methodNames_document]
    exact List.mem_map.2 ⟨x, hx, rfl⟩
  constructor
  · intro hkey
    obtain ⟨hname, hdesc⟩ := Graph.methodKey_inj (hplain p hpm).1 (hplain q hqm).1
      (hplain p hpm).2 (hplain q hqm).2 hkey
    rw [h.ofMethod_inj p hpm q hqm hname hdesc]
  · intro hkey
    obtain ⟨hname, hdesc⟩ := Graph.methodKey_inj (hp p hpm).1 (hp q hqm).1 (hp p hpm).2
      (hp q hqm).2 hkey
    rw [hname, hdesc]

namespace Graph

theorem Coherent.classOf?_iff (hg : g.Coherent) {name : String} :
    g.classOf? name = some c ↔ c < g.classCount ∧ g.className c = name := by
  constructor
  · exact classOf?_eq_some
  · rintro ⟨hc, rfl⟩
    exact hg.classOf_className c hc

theorem mem_classes {i : ClassInfo} (hi : i ∈ g.classes.toList) :
    ∃ c < g.classCount, i = g.classInfo c := by
  obtain ⟨c, hc, rfl⟩ := List.getElem_of_mem hi
  refine ⟨c, by simpa [classCount] using hc, ?_⟩
  unfold classInfo
  rw [Array.getD_eq_getD_getElem?, Array.getElem?_eq_getElem (by simpa using hc)]
  rfl

/-- Only what related methods lead to is of account for the pairs. -/
theorem relations_map {f : MethodDecl → MethodDecl} {docs : List MethodDecl}
    (h : ∀ d ∈ docs,
      (f d).related.filterMap g'.methodOf? = d.related.filterMap g.methodOf?) :
    g'.relations (docs.map f) = g.relations docs := by
  unfold relations
  apply congrArg List.flatten
  apply List.ext_getElem?
  intro i
  rw [List.getElem?_mapIdx, List.getElem?_mapIdx, List.getElem?_map]
  rcases hd : docs[i]? with _ | d
  · rfl
  · rw [Option.map_some, Option.map_some, Option.map_some, h d (List.mem_of_getElem? hd)]

/-- The graphs of a document and of its renaming, where different names stay different. -/
structure Versions (ren : Renaming) (doc : Document) (g g' : Graph) : Prop where
  built : g.Built doc.outline
  built' : g'.Built (ren.document doc).outline
  coherent : g.Coherent
  coherent' : g'.Coherent
  keys : g.KeysDistinct
  keys' : g'.KeysDistinct
  faithful : ren.Faithful doc
  plain : doc.PlainMethods
  plain' : (ren.document doc).PlainMethods

namespace Versions

variable (h : Versions ren doc g g')

include h

theorem renamed : Renamed ren g g' := by
  have houter : (ren.document doc).outline.map (·.1) = doc.outline.map (·.1) := by
    rw [ren.outline_document, List.map_map]
    rfl
  constructor
  · rw [h.built'.classes, houter, ren.outline_document, ren.numberClasses_rename,
      h.built.classes, List.map_toArray]
  · have hnames : ∀ (i : Nat) (e : Option ClassId × ClassDecl), doc.outline[i]? = some e →
        g.className (0 + i) = e.2.name := by
      intro i e he
      have hi : i < g.classCount := by
        rw [h.built.classCount_eq]
        exact (List.getElem?_eq_some_iff.1 he).1
      obtain ⟨e', he', hname, _⟩ := h.built.exists_entry hi
      rw [he] at he'
      cases he'
      rw [Nat.zero_add, hname]
    rw [h.built'.fields, ren.outline_document, ren.numberFields_rename hnames,
      h.built.fields, List.map_toArray]
  · rw [h.built'.methods, ren.outline_document, ren.numberMethods_rename, h.built.methods,
      List.map_toArray]

/-! ## Numbers that names lead to -/

theorem classOf?_rename {name : String} (hname : name ∈ doc.classNames) :
    g'.classOf? (ren.ofClass name) = g.classOf? name := by
  have hr := h.renamed
  ext c
  rw [h.coherent'.classOf?_iff, h.coherent.classOf?_iff, hr.classCount_eq]
  apply and_congr_right
  intro hc
  rw [hr.className_eq hc]
  constructor
  · exact h.faithful.ofClass_inj _ (h.built.className_mem hc) _ hname
  · intro heq
    exact congrArg ren.ofClass heq

theorem key_rename {p : String × String} (hp : p ∈ doc.methodNames) (hm : m < g.methodCount) :
    (g'.method m).key = methodKey (ren.ofMethod p.1 p.2) (ren.desc p.2) ↔
      (g.method m).key = methodKey p.1 p.2 := by
  rw [h.renamed.method_eq hm]
  exact h.faithful.methodKey_eq_iff h.plain h.plain' (h.built.method_mem hm) hp

theorem owner_rename (hm : m < g.methodCount) : (g'.method m).owner = (g.method m).owner := by
  rw [h.renamed.method_eq hm]
  rfl

theorem methodIn?_rename {p : String × String} (hp : p ∈ doc.methodNames) (c : ClassId) :
    g'.methodIn? c (methodKey (ren.ofMethod p.1 p.2) (ren.desc p.2)) =
      g.methodIn? c (methodKey p.1 p.2) := by
  ext m
  rw [methodIn?_iff h.coherent' h.keys', methodIn?_iff h.coherent h.keys,
    h.renamed.methodCount_eq]
  apply and_congr_right
  intro hm
  rw [h.owner_rename hm, h.key_rename hp hm]

theorem methodOf?_rename {r : Member} (hc : r.owner ∈ doc.classNames)
    (hm : (r.name, r.desc) ∈ doc.methodNames) :
    g'.methodOf? (ren.methodMember r) = g.methodOf? r := by
  unfold methodOf?
  rw [Renaming.methodMember, h.classOf?_rename hc]
  exact congrArg _ (funext fun c => h.methodIn?_rename hm c)

/-! ## Links -/

theorem named_eq : g'.named = g.named := by
  unfold named
  rw [h.renamed.classes, Array.toList_map, List.map_map]
  apply List.map_congr_left
  intro i hi
  obtain ⟨c, hc, rfl⟩ := mem_classes hi
  unfold namedKin Renaming.classInfo
  simp only [Function.comp_apply, Kin.mk.injEq, and_true]
  constructor
  · rcases hs : (g.classInfo c).superName? with _ | name
    · rfl
    · exact h.classOf?_rename (h.built.super_mem hc hs)
  · rw [List.filterMap_map]
    exact List.filterMap_congr fun name hname =>
      h.classOf?_rename (h.built.interface_mem hc hname)

theorem kin_eq : g'.kin = g.kin := by
  rw [h.built'.kin, h.built.kin]
  unfold allKin
  rw [← named, ← named, h.named_eq]

theorem relations_eq :
    g'.relations ((ren.document doc).outline.flatMap (·.2.methods)) =
      g.relations (doc.outline.flatMap (·.2.methods)) := by
  have hdocs : (ren.document doc).outline.flatMap (·.2.methods) =
      (doc.outline.flatMap (·.2.methods)).map ren.methodDecl := by
    rw [ren.outline_document]
    simp [List.flatMap_map, List.map_flatMap, Renaming.entry]
  rw [hdocs]
  apply relations_map
  intro d hd
  rw [Renaming.methodDecl, List.filterMap_map]
  exact List.filterMap_congr fun r hr =>
    h.methodOf?_rename (Document.owner_mem hd hr) (Document.related_mem hd hr)

theorem related_eq : g'.related = g.related := by
  rw [h.built'.related, h.built.related, h.relations_eq, h.renamed.methodCount_eq]

end Versions

/-! ## Searches -/

/-- What the searches see of the second graph is what they see of the first one. -/
structure Alike (g g' : Graph) : Prop where
  classCount_eq : g'.classCount = g.classCount
  methodCount_eq : g'.methodCount = g.methodCount
  kin : g'.kin = g.kin
  related : g'.related = g.related
  owner : ∀ m, (g'.method m).owner = (g.method m).owner
  isFixed : ∀ m, (g'.method m).isFixed = (g.method m).isFixed
  methodIn? : ∀ m < g.methodCount, ∀ c,
    g'.methodIn? c (g'.method m).key = g.methodIn? c (g.method m).key

theorem Versions.alike (h : Versions ren doc g g') : Alike g g' := by
  have hsame : ∀ m, (g'.method m).owner = (g.method m).owner ∧
      (g'.method m).isFixed = (g.method m).isFixed := by
    intro m
    by_cases hm : m < g.methodCount
    · rw [h.renamed.method_eq hm]
      exact ⟨rfl, rfl⟩
    · rw [method_of_le (Nat.not_lt.1 hm), method_of_le (h.renamed.methodCount_eq ▸ Nat.not_lt.1 hm)]
      exact ⟨rfl, rfl⟩
  refine ⟨h.renamed.classCount_eq, h.renamed.methodCount_eq, h.kin_eq, h.related_eq,
    fun m => (hsame m).1, fun m => (hsame m).2, ?_⟩
  intro m hm c
  rw [h.renamed.method_eq hm]
  exact h.methodIn?_rename (h.built.method_mem hm) c

namespace Alike

variable (h : Alike g g')

include h

theorem supertypes_eq : g'.supertypes = g.supertypes := by
  funext c
  unfold supertypes kinOf
  rw [h.kin]

theorem subtypes_eq : g'.subtypes = g.subtypes := by
  funext c
  unfold subtypes kinOf
  rw [h.kin]

theorem declaresVirtual_eq (hm : m < g.methodCount) :
    g'.declaresVirtual (g'.method m).key = g.declaresVirtual (g.method m).key := by
  funext c
  unfold declaresVirtual
  rw [h.methodIn? m hm c]
  simp only [h.isFixed]

theorem declaringAncestors_eq (hm : m < g.methodCount) :
    g'.declaringAncestors (g'.method m).key = g.declaringAncestors (g.method m).key := by
  funext c
  unfold declaringAncestors
  rw [h.classCount_eq, h.supertypes_eq, h.declaresVirtual_eq hm]

theorem neighbours_eq (hm : m < g.methodCount) :
    g'.neighbours (g'.method m).key = g.neighbours (g.method m).key := by
  funext c
  unfold neighbours descendants
  rw [h.declaringAncestors_eq hm, h.classCount_eq, h.subtypes_eq]

theorem slot_eq (hm : m < g.methodCount) (c : ClassId) : g'.slot c m = g.slot c m := by
  unfold slot
  simp only
  rw [h.isFixed, h.classCount_eq, h.neighbours_eq hm, h.declaresVirtual_eq hm]

theorem isSource_eq (hm : m < g.methodCount) (c : ClassId) :
    g'.isSource c m = g.isSource c m := by
  unfold isSource
  rw [h.isFixed, h.declaringAncestors_eq hm]

theorem slotMethods_eq (hm : m < g.methodCount) (c : ClassId) :
    g'.slotMethods c m = g.slotMethods c m := by
  unfold slotMethods
  rw [h.slot_eq hm]
  simp only [h.methodIn? m hm]

theorem relatedMethods_eq (hm : m < g.methodCount) (c : ClassId) :
    g'.relatedMethods c m = g.relatedMethods c m := by
  unfold relatedMethods relatedTo
  rw [h.methodIn? m hm, h.related]
  simp only [h.owner]

theorem slotRelated_eq (hm : m < g.methodCount) (c : ClassId) :
    g'.slotRelated c m = g.slotRelated c m := by
  unfold slotRelated
  rw [h.slot_eq hm]
  simp only [h.relatedMethods_eq hm]

theorem visitsFrom_eq (found : List MethodId) (agenda : List (ClassId × MethodId)) :
    g'.visitsFrom found agenda = g.visitsFrom found agenda := by
  fun_induction visitsFrom g found agenda with
  | case1 => rw [visitsFrom]
  | case2 found c m agenda hm ih =>
    rw [visitsFrom, dif_pos (h.methodCount_eq ▸ hm), ih]
  | case3 found c m agenda hm ih =>
    have hlt : m < g.methodCount := Nat.not_le.1 (not_or.1 hm).2
    rw [visitsFrom, dif_neg (h.methodCount_eq ▸ hm), h.slotMethods_eq hlt, h.slotRelated_eq hlt,
      ih]

theorem visits_eq (c : ClassId) (m : MethodId) : g'.visits c m = g.visits c m :=
  h.visitsFrom_eq _ _

theorem family_eq (hg : g.Coherent) (hm : m < g.methodCount) :
    g'.family (g.method m).owner m = g.family (g.method m).owner m := by
  unfold family
  rw [h.visits_eq]
  apply congrArg List.eraseDups
  apply List.flatMap_congr
  rintro ⟨d, n⟩ hvisit
  obtain ⟨_, hn, _⟩ := akin_of_mem_visits hg hm hvisit
  exact congrArg _ (h.slotMethods_eq hn d)

end Alike

end Graph

end StableNames
