-- Documents under new names. A renaming gives every class, every field and
-- every method a new name and leaves all else as it is. If it tells apart
-- what the document tells apart, then both documents make the same graph
-- with the same numbers and links, and only the names differ.
import StableNames.Proofs.Graph.WellFormed

namespace StableNames

/-- New names: of a class by its name, of a field by all that it goes by, and of a method
by its name and descriptor. -/
structure Renaming where
  ofClass : String → String
  ofField : Member → String
  ofMethod : String → String → String

namespace Renaming

variable (ren : Renaming)

/-! ## What is renamed -/

/-- The descriptor with its classes renamed. -/
def desc (desc : String) : String := Descriptor.remap (fun name => some (ren.ofClass name)) desc

def fieldMember (m : Member) : Member := ⟨ren.ofClass m.owner, ren.ofField m, ren.desc m.desc⟩

def methodMember (m : Member) : Member :=
  ⟨ren.ofClass m.owner, ren.ofMethod m.name m.desc, ren.desc m.desc⟩

def fieldDecl (owner : String) (d : FieldDecl) : FieldDecl :=
  { d with name := ren.ofField ⟨owner, d.name, d.desc⟩, desc := ren.desc d.desc }

def methodDecl (d : MethodDecl) : MethodDecl where
  name := ren.ofMethod d.name d.desc
  desc := ren.desc d.desc
  access := d.access
  related := d.related.map ren.methodMember

mutual

/-- The class with new names, also for the classes inside it. -/
def classDecl : ClassDecl → ClassDecl
  | ⟨name, access, superName?, interfaceNames, anonymous?, fields, methods, inner⟩ => {
      name := ren.ofClass name
      access
      superName? := superName?.map ren.ofClass
      interfaceNames := interfaceNames.map ren.ofClass
      anonymous?
      fields := fields.map (ren.fieldDecl name)
      methods := methods.map ren.methodDecl
      inner := classDecls inner }

def classDecls : List ClassDecl → List ClassDecl
  | [] => []
  | d :: rest => classDecl d :: classDecls rest

end

def document (doc : Document) : Document := ⟨ren.classDecls doc.classes⟩

/-- The class of a graph with its new name. -/
def classInfo (i : ClassInfo) : ClassInfo :=
  { i with
    name := ren.ofClass i.name
    superName? := i.superName?.map ren.ofClass
    interfaceNames := i.interfaceNames.map ren.ofClass }

/-- The field of a graph with its new name, if its class had the name `nameOf` gives. -/
def fieldInfo (nameOf : ClassId → String) (i : FieldInfo) : FieldInfo where
  owner := i.owner
  name := ren.ofField ⟨nameOf i.owner, i.name, i.desc⟩
  desc := ren.desc i.desc

def methodInfo (i : MethodInfo) : MethodInfo :=
  { i with name := ren.ofMethod i.name i.desc, desc := ren.desc i.desc }

/-! ## Renamed outlines -/

/-- An entry of an outline with its new names. -/
def entry (e : Option ClassId × ClassDecl) : Option ClassId × ClassDecl :=
  (e.1, ren.classDecl e.2)

section Projections

variable (d : ClassDecl)

@[simp] theorem classDecl_name : (ren.classDecl d).name = ren.ofClass d.name := by
  cases d
  rfl

@[simp] theorem classDecl_access : (ren.classDecl d).access = d.access := by
  cases d
  rfl

@[simp] theorem classDecl_super :
    (ren.classDecl d).superName? = d.superName?.map ren.ofClass := by
  cases d
  rfl

@[simp] theorem classDecl_interfaces :
    (ren.classDecl d).interfaceNames = d.interfaceNames.map ren.ofClass := by
  cases d
  rfl

@[simp] theorem classDecl_anonymous : (ren.classDecl d).anonymous? = d.anonymous? := by
  cases d
  rfl

@[simp] theorem classDecl_fields :
    (ren.classDecl d).fields = d.fields.map (ren.fieldDecl d.name) := by
  cases d
  rfl

@[simp] theorem classDecl_methods :
    (ren.classDecl d).methods = d.methods.map ren.methodDecl := by
  cases d
  rfl

end Projections

mutual

theorem outline_classDecl (outer? : Option ClassId) (id : ClassId) (d : ClassDecl) :
    (ren.classDecl d).outline outer? id = (d.outline outer? id).map ren.entry := by
  obtain ⟨name, access, superName?, interfaceNames, anonymous?, fields, methods, inner⟩ := d
  rw [classDecl, ClassDecl.outline, ClassDecl.outline, List.map_cons,
    outlineAll_classDecls (some id) (id + 1) inner]
  simp only [entry, classDecl]

theorem outlineAll_classDecls (outer? : Option ClassId) (id : ClassId) (ds : List ClassDecl) :
    outlineAll outer? id (ren.classDecls ds) = (outlineAll outer? id ds).map ren.entry := by
  match ds with
  | [] => simp only [classDecls, outlineAll, List.map_nil]
  | d :: rest =>
    simp only [classDecls, outlineAll, List.map_append]
    rw [outline_classDecl outer? id d, List.length_map, outlineAll_classDecls outer? _ rest]

end

theorem outline_document (doc : Document) :
    (ren.document doc).outline = doc.outline.map ren.entry :=
  ren.outlineAll_classDecls none 0 doc.classes

theorem numberClasses_rename (outer : List (Option ClassId)) (id field method : Nat)
    (outline : List (Option ClassId × ClassDecl)) :
    numberClasses outer id field method (outline.map ren.entry) =
      (numberClasses outer id field method outline).map ren.classInfo := by
  induction outline generalizing id field method with
  | nil => rfl
  | cons e rest ih => simp [numberClasses, entry, classInfo, ih]

theorem numberMethods_rename (id : Nat) (outline : List (Option ClassId × ClassDecl)) :
    numberMethods id (outline.map ren.entry) =
      (numberMethods id outline).map ren.methodInfo := by
  induction outline generalizing id with
  | nil => rfl
  | cons e rest ih => simp [numberMethods, entry, methodInfo, methodDecl, ih]

/-- The owner of a field is the class that declares it, so `nameOf` has to know the names
of the classes from `id` on. -/
theorem numberFields_rename {nameOf : ClassId → String} {id : Nat}
    {outline : List (Option ClassId × ClassDecl)}
    (h : ∀ (i : Nat) (e : Option ClassId × ClassDecl), outline[i]? = some e →
      nameOf (id + i) = e.2.name) :
    numberFields id (outline.map ren.entry) =
      (numberFields id outline).map (ren.fieldInfo nameOf) := by
  induction outline generalizing id with
  | nil => rfl
  | cons e rest ih =>
    have hhead : nameOf id = e.2.name := h 0 e rfl
    have htail := @ih (id + 1) fun i e he => by
      rw [Nat.add_assoc, Nat.add_comm 1]
      exact h (i + 1) e he
    simp [numberFields, entry, htail, Function.comp_def, fieldInfo, fieldDecl, hhead]

end Renaming

/-! ## What a document tells apart -/

namespace Document

variable (doc : Document)

/-- The names of classes that stand in a document, outside of descriptors. -/
def classNames : List String :=
  doc.outline.flatMap fun e =>
    e.2.name :: e.2.superName?.toList ++ e.2.interfaceNames ++
      e.2.methods.flatMap fun d => d.related.map (·.owner)

/-- The methods that are declared or referred to in a document, by name and descriptor. -/
def methodNames : List (String × String) :=
  (doc.outline.flatMap (·.2.methods)).flatMap fun d =>
    (d.name, d.desc) :: d.related.map fun r => (r.name, r.desc)

/-- Names of methods have no parenthesis, and their descriptors start with one. -/
def PlainMethods : Prop :=
  ∀ p ∈ doc.methodNames, '(' ∉ p.1.toList ∧ p.2.toList.head? = some '('

instance : Decidable doc.PlainMethods := by
  unfold PlainMethods
  infer_instance

variable {doc} {d : MethodDecl} {r : Member}

theorem owner_mem (hd : d ∈ doc.outline.flatMap (·.2.methods)) (hr : r ∈ d.related) :
    r.owner ∈ doc.classNames := by
  obtain ⟨e, he, hd⟩ := List.mem_flatMap.1 hd
  refine List.mem_flatMap.2 ⟨e, he, List.mem_append_right _ ?_⟩
  exact List.mem_flatMap.2 ⟨d, hd, List.mem_map_of_mem hr⟩

theorem related_mem (hd : d ∈ doc.outline.flatMap (·.2.methods)) (hr : r ∈ d.related) :
    (r.name, r.desc) ∈ doc.methodNames :=
  List.mem_flatMap.2 ⟨d, hd, List.mem_cons_of_mem _ (List.mem_map.2 ⟨r, hr, rfl⟩)⟩

end Document

/-- Different names of the document stay different. -/
structure Renaming.Faithful (ren : Renaming) (doc : Document) : Prop where
  ofClass_inj : ∀ a ∈ doc.classNames, ∀ b ∈ doc.classNames,
    ren.ofClass a = ren.ofClass b → a = b
  ofMethod_inj : ∀ p ∈ doc.methodNames, ∀ q ∈ doc.methodNames,
    ren.ofMethod p.1 p.2 = ren.ofMethod q.1 q.2 → ren.desc p.2 = ren.desc q.2 → p = q

variable {ren : Renaming} {doc : Document}

theorem Renaming.methodNames_document :
    (ren.document doc).methodNames =
      doc.methodNames.map fun p => (ren.ofMethod p.1 p.2, ren.desc p.2) := by
  unfold Document.methodNames
  rw [ren.outline_document]
  simp [List.flatMap_map, List.map_flatMap, List.flatMap_assoc, entry, methodDecl, methodMember,
    Function.comp_def]

theorem numberClasses_map_links (outer : List (Option ClassId)) (id field method : Nat)
    (outline : List (Option ClassId × ClassDecl)) :
    (numberClasses outer id field method outline).map
        (fun i => (i.name, i.superName?, i.interfaceNames)) =
      outline.map fun e => (e.2.name, e.2.superName?, e.2.interfaceNames) := by
  induction outline generalizing id field method with
  | nil => rfl
  | cons e rest ih => simp [numberClasses, ih]

theorem numberMethods_map_name (id : Nat) (outline : List (Option ClassId × ClassDecl)) :
    (numberMethods id outline).map (fun i => (i.name, i.desc)) =
      (outline.flatMap (·.2.methods)).map fun d => (d.name, d.desc) := by
  induction outline generalizing id with
  | nil => rfl
  | cons e rest ih => simp [numberMethods, ih]

namespace Graph

variable {g g' : Graph} {outline : List (Option ClassId × ClassDecl)} {m n : MethodId}

/-- The second graph holds what the first one holds, under new names. -/
structure Renamed (ren : Renaming) (g g' : Graph) : Prop where
  classes : g'.classes = g.classes.map ren.classInfo
  fields : g'.fields = g.fields.map (ren.fieldInfo g.className)
  methods : g'.methods = g.methods.map ren.methodInfo

namespace Renamed

variable (h : Renamed ren g g')

include h

theorem classCount_eq : g'.classCount = g.classCount := by
  unfold classCount
  rw [h.classes, Array.size_map]

theorem methodCount_eq : g'.methodCount = g.methodCount := by
  unfold methodCount
  rw [h.methods, Array.size_map]

theorem size_fields : g'.fields.size = g.fields.size := by
  rw [h.fields, Array.size_map]

theorem classInfo_eq {c : ClassId} (hc : c < g.classCount) :
    g'.classInfo c = ren.classInfo (g.classInfo c) := by
  unfold classInfo
  rw [h.classes, Array.getD_eq_getD_getElem?, Array.getElem?_map, getElem?_classes hc]
  rfl

theorem field_eq {f : FieldId} (hf : f < g.fields.size) :
    g'.field f = ren.fieldInfo g.className (g.field f) := by
  unfold field
  rw [h.fields, Array.getD_eq_getD_getElem?, Array.getElem?_map, getElem?_fields hf]
  rfl

theorem method_eq (hm : m < g.methodCount) : g'.method m = ren.methodInfo (g.method m) := by
  unfold method
  rw [h.methods, Array.getD_eq_getD_getElem?, Array.getElem?_map, getElem?_methods hm]
  rfl

theorem className_eq {c : ClassId} (hc : c < g.classCount) :
    g'.className c = ren.ofClass (g.className c) := by
  unfold className
  rw [h.classInfo_eq hc]
  rfl

end Renamed

/-! ## Names that stand in the document -/

namespace Built

theorem exists_entry (h : g.Built outline) {c : ClassId} (hc : c < g.classCount) :
    ∃ e, outline[c]? = some e ∧ g.className c = e.2.name ∧
      (g.classInfo c).superName? = e.2.superName? ∧
      (g.classInfo c).interfaceNames = e.2.interfaceNames := by
  have hlinks := congrArg (·[c]?)
    (numberClasses_map_links (outline.map (·.1)) 0 0 0 outline)
  simp only [List.getElem?_map, h.getElem?_numberClasses hc] at hlinks
  rw [Option.map_some, eq_comm, Option.map_eq_some_iff] at hlinks
  obtain ⟨e, he, hlinks⟩ := hlinks
  simp only [Prod.mk.injEq] at hlinks
  exact ⟨e, he, hlinks.1.symm, hlinks.2.1.symm, hlinks.2.2.symm⟩

theorem className_mem (h : g.Built doc.outline) {c : ClassId} (hc : c < g.classCount) :
    g.className c ∈ doc.classNames := by
  obtain ⟨e, he, hname, _⟩ := h.exists_entry hc
  exact List.mem_flatMap.2 ⟨e, List.mem_of_getElem? he, by simp [hname]⟩

theorem super_mem (h : g.Built doc.outline) {c : ClassId} (hc : c < g.classCount)
    {name : String} (hs : (g.classInfo c).superName? = some name) : name ∈ doc.classNames := by
  obtain ⟨e, he, _, hsuper, _⟩ := h.exists_entry hc
  exact List.mem_flatMap.2 ⟨e, List.mem_of_getElem? he, by simp [← hsuper, hs]⟩

theorem interface_mem (h : g.Built doc.outline) {c : ClassId} (hc : c < g.classCount)
    {name : String} (hi : name ∈ (g.classInfo c).interfaceNames) : name ∈ doc.classNames := by
  obtain ⟨e, he, _, _, hinterfaces⟩ := h.exists_entry hc
  exact List.mem_flatMap.2 ⟨e, List.mem_of_getElem? he, by simp [← hinterfaces, hi]⟩

theorem method_mem (h : g.Built doc.outline) (hm : m < g.methodCount) :
    ((g.method m).name, (g.method m).desc) ∈ doc.methodNames := by
  have hget : (numberMethods 0 doc.outline)[m]? = some (g.method m) := by
    rw [← getElem?_methods hm, h.methods, List.getElem?_toArray]
  have hmem : ((g.method m).name, (g.method m).desc) ∈
      (numberMethods 0 doc.outline).map fun i => (i.name, i.desc) :=
    List.mem_map.2 ⟨_, List.mem_of_getElem? hget, rfl⟩
  rw [numberMethods_map_name] at hmem
  obtain ⟨d, hd, heq⟩ := List.mem_map.1 hmem
  exact List.mem_flatMap.2 ⟨d, hd, by simp [heq]⟩

end Built

end Graph

end StableNames
