-- Documents that are written are read back. A key that is left out stands
-- for the value that a reader puts in its place, so each record has the
-- values that it was written with. This holds as long as no value is
-- nested deeper than a reader follows.
import StableNames.Graph.Load
import StableNames.Proofs.Json.Written

namespace StableNames

/-! ## Nesting -/

namespace Json

mutual

/-- How deep arrays and objects are nested in a value. -/
def nesting : Json → Nat
  | .array items => nestingItems items + 1
  | .object members => nestingMembers members + 1
  | _ => 0

def nestingItems : List Json → Nat
  | [] => 0
  | j :: rest => max j.nesting (nestingItems rest)

def nestingMembers : List (Option String × Json) → Nat
  | [] => 0
  | (_, j) :: rest => max j.nesting (nestingMembers rest)

end

theorem nesting_array_le {items : List Json} {levels : Nat} :
    nesting (.array items) ≤ levels + 1 ↔ ∀ j ∈ items, j.nesting ≤ levels := by
  rw [nesting, Nat.add_le_add_iff_right]
  induction items with
  | nil => simp [nestingItems]
  | cons j items ih => rw [nestingItems, Nat.max_le, ih, List.forall_mem_cons]

theorem nesting_object_le {members : List (String × Json)} {levels : Nat} :
    nesting (.ofMembers members) ≤ levels + 1 ↔ ∀ m ∈ members, m.2.nesting ≤ levels := by
  unfold ofMembers
  rw [nesting, Nat.add_le_add_iff_right]
  induction members with
  | nil => simp [nestingMembers]
  | cons m members ih => rw [List.map_cons, nestingMembers, Nat.max_le, ih, List.forall_mem_cons]

end Json

namespace DocumentJson

variable {levels : Nat}

theorem mapM_eq_some_map {α β : Type} {f : α → Option β} {g : α → β} {xs : List α}
    (h : ∀ x ∈ xs, f x = some (g x)) : xs.mapM f = some (xs.map g) := by
  induction xs with
  | nil => rfl
  | cons x xs ih =>
    rw [List.forall_mem_cons] at h
    rw [List.mapM_cons, h.1, ih h.2]
    rfl

/-- What is written item by item is read item by item. -/
theorem mapM_map_eq_some {α β : Type} {f : β → Option α} {g : α → β} {xs : List α}
    (h : ∀ x ∈ xs, f (g x) = some x) : (xs.map g).mapM f = some xs := by
  rw [List.mapM_map]
  exact (mapM_eq_some_map (g := id) h).trans (by rw [List.map_id])

/-! ## Records -/

/-- The members of an object; a key without a value is left out. -/
def present (fields : List (String × Option Json)) : List (String × Json) :=
  fields.flatMap fun f => f.2.toList.map (f.1, ·)

theorem mem_present {fields : List (String × Option Json)} {m : String × Json} :
    m ∈ present fields ↔ (m.1, some m.2) ∈ fields := by
  unfold present
  simp only [List.mem_flatMap, List.mem_map, Option.mem_toList]
  constructor
  · rintro ⟨⟨key, _⟩, hf, j, rfl, rfl⟩
    exact hf
  · intro h
    exact ⟨_, h, m.2, rfl, rfl⟩

/-- With different keys, each key has its own value. -/
theorem filter_present {fields : List (String × Option Json)} (h : (fields.map (·.1)).Nodup)
    {f : String × Option Json} (hf : f ∈ fields) :
    (present fields).filter (·.1 = f.1) = f.2.toList.map (f.1, ·) := by
  induction fields with
  | nil => cases hf
  | cons g fields ih =>
    rw [List.map_cons, List.nodup_cons] at h
    obtain ⟨hfirst, hrest⟩ := h
    have hcons : present (g :: fields) = g.2.toList.map (g.1, ·) ++ present fields := rfl
    rw [hcons, List.filter_append]
    rcases List.mem_cons.1 hf with rfl | hf
    · have hself : (f.2.toList.map (f.1, ·)).filter (·.1 = f.1) = f.2.toList.map (f.1, ·) := by
        rw [List.filter_eq_self]
        intro m hm
        obtain ⟨_, _, rfl⟩ := List.mem_map.1 hm
        simp
      have hnone : (present fields).filter (·.1 = f.1) = [] := by
        rw [List.filter_eq_nil_iff]
        intro m hm heq
        have hkey : m.1 = f.1 := decide_eq_true_iff.1 heq
        exact hfirst (List.mem_map.2 ⟨_, mem_present.1 hm, hkey⟩)
      rw [hself, hnone, List.append_nil]
    · have hnone : (g.2.toList.map (g.1, ·)).filter (·.1 = f.1) = [] := by
        rw [List.filter_eq_nil_iff]
        intro m hm heq
        obtain ⟨_, _, rfl⟩ := List.mem_map.1 hm
        exact hfirst (List.mem_map.2 ⟨f, hf, (decide_eq_true_iff.1 heq).symm⟩)
      rw [hnone, List.nil_append, ih hrest hf]

/-- A record that is written as an object has the values that it was written with. -/
theorem record?_present {fields : List (String × Option Json)} (h : (fields.map (·.1)).Nodup) :
    record? (fields.map (·.1)) (.ofMembers (present fields)) = some (fields.map (·.2)) := by
  have hmembers : ((present fields).map fun m => (some m.1, m.2)).mapM
      (fun m => m.1.map fun key => (key, m.2)) = some (present fields) :=
    mapM_map_eq_some fun _ _ => rfl
  unfold Json.ofMembers record? valuesOf?
  simp only [hmembers, Option.bind_eq_bind, Option.bind_some, List.mapM_map]
  apply mapM_eq_some_map
  intro f hf
  rw [Function.comp_apply, filter_present h hf]
  rcases f.2 with _ | j <;> rfl

/-! ## Values -/

theorem text?_ofString (s : String) : text? (.ofString s) = some s := rfl

theorem access?_ofNat (access : UInt32) : access? (.ofNat access.toNat) = some access := by
  have hread : Text.readNumeral Text.wordLimit (toString access.toNat).toList =
      .ok access.toNat :=
    Text.readNumeral_eq_ok.2 ⟨Text.isNumeral_toString _, access.toNat_lt⟩
  have hsign : ∀ c ∈ (toString access.toNat).toList, c ≠ '-' ∧ c ≠ '+' := by
    intro c hc
    have hdigit := Text.isDigit_of_mem_toString hc
    constructor <;> rintro rfl <;> cases hdigit
  unfold access? Json.ofNat
  simp only
  split
  · next heq => exact absurd rfl (hsign '-' (by rw [heq]; simp)).1
  · next heq => exact absurd rfl (hsign '+' (by rw [heq]; simp)).2
  · rw [hread]
    simp [Except.toOption]

theorem orElse?_access (access : UInt32) :
    orElse? 0 access? (some (.ofNat access.toNat)) = some access := access?_ofNat access

/-- The value of a list, which is left out if the list is empty. -/
def listValue (items : List Json) : Option Json :=
  if items.isEmpty then none else some (.array items)

theorem listMember_eq (key : String) (items : List Json) :
    listMember key items = (listValue items).toList.map (key, ·) := by
  unfold listMember listValue
  cases items <;> rfl

/-- Where items are read as they were written, so is their list. -/
theorem orElse?_listValue {α : Type} {read : Nat → Json → Option α} {write : α → Json}
    (h : ∀ x, ∀ l < levels, (write x).nesting ≤ l → read l (write x) = some x) (xs : List α)
    (hlevels : ∀ j ∈ listValue (xs.map write), j.nesting ≤ levels) :
    orElse? [] (items? levels read) (listValue (xs.map write)) = some xs := by
  cases xs with
  | nil => rfl
  | cons x xs =>
    have hnesting := hlevels _ (rfl : listValue ((x :: xs).map write) = some (.array _))
    cases levels with
    | zero => simp [Json.nesting] at hnesting
    | succ levels =>
      rw [Json.nesting_array_le] at hnesting
      apply mapM_map_eq_some
      intro x hx
      exact h x levels (Nat.lt_succ_self levels) (hnesting _ (List.mem_map_of_mem hx))

/-! ## Members of classes -/

theorem record?_memberJson (m : Member) : record? memberKeys (memberJson m) =
    some [some (.ofString m.owner), some (.ofString m.name), some (.ofString m.desc)] :=
  @record?_present [("owner", some (.ofString m.owner)), ("name", some (.ofString m.name)),
    ("desc", some (.ofString m.desc))] (by decide : memberKeys.Nodup)

theorem member?_memberJson (m : Member) (levels : Nat)
    (h : (memberJson m).nesting ≤ levels) : member? levels (memberJson m) = some m := by
  cases levels with
  | zero => simp [memberJson, Json.ofMembers, Json.nesting] at h
  | succ levels =>
    rw [member?, record?_memberJson]
    rfl

theorem record?_fieldJson (f : FieldDecl) : record? fieldKeys (fieldJson f) =
    some [some (.ofString f.name), some (.ofString f.desc), some (.ofNat f.access.toNat)] :=
  @record?_present [("name", some (.ofString f.name)), ("desc", some (.ofString f.desc)),
    ("access", some (.ofNat f.access.toNat))] (by decide : fieldKeys.Nodup)

theorem field?_fieldJson (f : FieldDecl) (levels : Nat)
    (h : (fieldJson f).nesting ≤ levels) : field? levels (fieldJson f) = some f := by
  cases levels with
  | zero => simp [fieldJson, Json.ofMembers, Json.nesting] at h
  | succ levels =>
    rw [field?, record?_fieldJson]
    simp [text?_ofString, orElse?_access]

/-- The values of a method by their keys. -/
def methodFields (m : MethodDecl) : List (String × Option Json) :=
  [("name", some (.ofString m.name)), ("desc", some (.ofString m.desc)),
    ("access", some (.ofNat m.access.toNat)), ("related", listValue (m.related.map memberJson))]

theorem methodJson_eq (m : MethodDecl) :
    methodJson m = .ofMembers (present (methodFields m)) := by
  unfold methodJson
  rw [listMember_eq]
  simp [present, methodFields, accessMember]

theorem method?_methodJson (m : MethodDecl) (levels : Nat)
    (h : (methodJson m).nesting ≤ levels) : method? levels (methodJson m) = some m := by
  cases levels with
  | zero => simp [methodJson, Json.ofMembers, Json.nesting] at h
  | succ levels =>
    rw [methodJson_eq, Json.nesting_object_le] at h
    have hrelated := orElse?_listValue (fun x l _ => member?_memberJson x l) m.related fun j hj =>
      h ("related", j) (mem_present.2 (by simp [methodFields, Option.mem_def.1 hj]))
    have hrecord : record? methodKeys (methodJson m) = some ((methodFields m).map (·.2)) := by
      rw [methodJson_eq]
      exact record?_present (by decide : methodKeys.Nodup)
    rw [method?, hrecord]
    simp [methodFields, text?_ofString, orElse?_access, hrelated]

/-! ## Classes -/

/-- The values of a class by their keys. -/
def classFields (d : ClassDecl) : List (String × Option Json) :=
  [("name", some (.ofString d.name)), ("access", some (.ofNat d.access.toNat)),
    ("super", d.superName?.map .ofString),
    ("interfaces", listValue (d.interfaceNames.map .ofString)),
    ("anonymous", d.anonymous?.map .bool), ("fields", listValue (d.fields.map fieldJson)),
    ("methods", listValue (d.methods.map methodJson)),
    ("inner", listValue (d.inner.map classJson))]

theorem classesJson_eq (ds : List ClassDecl) : classesJson ds = ds.map classJson := by
  induction ds with
  | nil => rfl
  | cons d ds ih => rw [classesJson, ih, List.map_cons]

theorem classJson_eq (d : ClassDecl) : classJson d = .ofMembers (present (classFields d)) := by
  obtain ⟨name, access, superName?, interfaceNames, anonymous?, fields, methods, inner⟩ := d
  rw [classJson, classesJson_eq]
  simp only [listMember_eq, accessMember]
  cases superName? <;> cases anonymous? <;> simp [present, classFields]

theorem orElse?_nullable {α : Type} {read : Json → Option α} {write : α → Json} {x? : Option α}
    (h : ∀ x, nullable? read (write x) = some (some x)) :
    orElse? none (nullable? read) (x?.map write) = some x? := by
  cases x? with
  | none => rfl
  | some x => exact h x

/-- A class is read from the values of its keys, the classes inside it like other lists. -/
theorem class?_record {j name : Json}
    {access superName interfaces anonymous fields methods inner : Option Json}
    (h : record? classKeys j =
      some [some name, access, superName, interfaces, anonymous, fields, methods, inner]) :
    class? (levels + 1) j = (do
      let inner ← orElse? [] (items? levels class?) inner
      return {
        name := ← text? name
        access := ← orElse? 0 access? access
        superName? := ← orElse? none (nullable? text?) superName
        interfaceNames := ← orElse? [] (items? levels fun _ => text?) interfaces
        anonymous? := ← orElse? none (nullable? flag?) anonymous
        fields := ← orElse? [] (items? levels field?) fields
        methods := ← orElse? [] (items? levels method?) methods
        inner }) := by
  rw [class?, h]
  rcases inner with _ | (_ | _ | _ | _ | _ | _) <;> cases levels <;> rfl

/-- A class is read as it was written, if its values are not nested too deep. -/
theorem class?_classJson (d : ClassDecl) (levels : Nat) :
    (classJson d).nesting ≤ levels → class? levels (classJson d) = some d := by
  induction levels using Nat.strongRecOn generalizing d with
  | ind levels ih =>
    intro h
    rcases levels with _ | levels
    · rw [classJson_eq] at h
      simp [Json.ofMembers, Json.nesting] at h
    have hrecord : record? classKeys (classJson d) = some ((classFields d).map (·.2)) := by
      rw [classJson_eq]
      exact record?_present (by decide : classKeys.Nodup)
    rw [classJson_eq, Json.nesting_object_le] at h
    have hlist : ∀ key items, (key, listValue items) ∈ classFields d →
        ∀ j ∈ listValue items, j.nesting ≤ levels := by
      intro key items hkey j hj
      rw [Option.mem_def.1 hj] at hkey
      exact h (key, j) (mem_present.2 hkey)
    have hinterfaces := orElse?_listValue (fun s _ _ _ => text?_ofString s) d.interfaceNames
      (hlist "interfaces" _ (by simp [classFields]))
    have hfields := orElse?_listValue (fun f l _ => field?_fieldJson f l) d.fields
      (hlist "fields" _ (by simp [classFields]))
    have hmethods := orElse?_listValue (fun m l _ => method?_methodJson m l) d.methods
      (hlist "methods" _ (by simp [classFields]))
    have hinner := orElse?_listValue (fun d l hl => ih l (Nat.lt_succ_of_lt hl) d) d.inner
      (hlist "inner" _ (by simp [classFields]))
    have hsuper : orElse? none (nullable? text?) (d.superName?.map .ofString) =
        some d.superName? := orElse?_nullable fun _ => rfl
    have hanonymous : orElse? none (nullable? flag?) (d.anonymous?.map .bool) =
        some d.anonymous? := orElse?_nullable fun _ => rfl
    rw [class?_record hrecord]
    simp [text?_ofString, orElse?_access, hsuper, hinterfaces, hanonymous, hfields,
      hmethods, hinner]
    cases d
    rfl

/-! ## Documents -/

theorem plain_listValue {α : Type} {write : α → Json} {xs : List α}
    (h : ∀ x ∈ xs, (write x).Plain) : ∀ j ∈ listValue (xs.map write), j.Plain := by
  cases xs with
  | nil => rintro _ ⟨⟩
  | cons x xs =>
    rintro _ ⟨⟩
    exact .array (List.forall_mem_map.2 h)

theorem plain_map {α : Type} {write : α → Json} (h : ∀ x, (write x).Plain) {x? : Option α} :
    ∀ j ∈ x?.map write, j.Plain := by
  intro j hj
  obtain ⟨x, _, rfl⟩ := Option.map_eq_some_iff.1 hj
  exact h x

theorem plain_present {fields : List (String × Option Json)}
    (h : ∀ f ∈ fields, ∀ j ∈ f.2, j.Plain) : (Json.ofMembers (present fields)).Plain :=
  .object fun _ hm => h _ (mem_present.1 hm) _ rfl

theorem plain_memberJson (m : Member) : (memberJson m).Plain := by
  apply Json.Plain.object
  simp [Json.Plain.string]

theorem plain_fieldJson (f : FieldDecl) : (fieldJson f).Plain := by
  apply Json.Plain.object
  simp [accessMember, Json.Plain.string, Json.Plain.number]

theorem plain_methodJson (m : MethodDecl) : (methodJson m).Plain := by
  rw [methodJson_eq]
  apply plain_present
  have hrelated : ∀ j ∈ listValue (m.related.map memberJson), j.Plain :=
    plain_listValue fun x _ => plain_memberJson x
  simp only [methodFields, List.forall_mem_cons, Option.mem_def, Option.some.injEq, forall_eq']
  exact ⟨.string _, .string _, .number _, hrelated, by simp⟩

mutual

theorem plain_classJson : ∀ d, (classJson d).Plain
  | ⟨name, access, superName?, interfaceNames, anonymous?, fields, methods, inner⟩ => by
    have hsuper : ∀ j ∈ superName?.map Json.ofString, j.Plain :=
      plain_map .string
    have hinterfaces : ∀ j ∈ listValue (interfaceNames.map .ofString), j.Plain :=
      plain_listValue fun s _ => .string s
    have hanonymous : ∀ j ∈ anonymous?.map Json.bool, j.Plain :=
      plain_map .bool
    have hfields : ∀ j ∈ listValue (fields.map fieldJson), j.Plain :=
      plain_listValue fun f _ => plain_fieldJson f
    have hmethods : ∀ j ∈ listValue (methods.map methodJson), j.Plain :=
      plain_listValue fun m _ => plain_methodJson m
    have hinner : ∀ j ∈ listValue (inner.map classJson), j.Plain :=
      plain_listValue (plain_classesJson inner)
    rw [classJson_eq]
    apply plain_present
    simp only [classFields, List.forall_mem_cons]
    refine ⟨?_, ?_, hsuper, hinterfaces, hanonymous, hfields, hmethods, hinner, by simp⟩
    · rintro _ ⟨⟩
      exact .string _
    · rintro _ ⟨⟩
      exact .number _

theorem plain_classesJson : ∀ ds : List ClassDecl, ∀ d ∈ ds, (classJson d).Plain
  | [] => by simp
  | d :: ds => List.forall_mem_cons.2 ⟨plain_classJson d, plain_classesJson ds⟩

end

theorem plain_toJson (doc : Document) : (toJson doc).Plain := by
  apply Json.Plain.object
  rw [List.forall_mem_singleton, classesJson_eq]
  exact .array (List.forall_mem_map.2 fun d _ => plain_classJson d)

theorem ofJson?_toJson {doc : Document} (h : (toJson doc).nesting ≤ levelLimit) :
    ofJson? (toJson doc) = some doc := by
  unfold toJson at h ⊢
  rw [classesJson_eq] at h ⊢
  have hclasses : (Json.array (doc.classes.map classJson)).nesting ≤ levelLimit - 1 :=
    Json.nesting_object_le.1 h _ (List.mem_singleton_self _)
  have hread : (doc.classes.map classJson).mapM (class? (levelLimit - 2)) = some doc.classes := by
    apply mapM_map_eq_some
    intro d hd
    exact class?_classJson d _ (Json.nesting_array_le.1 hclasses _ (List.mem_map_of_mem hd))
  have hrecord : record? documentKeys
      (.ofMembers [("classes", .array (doc.classes.map classJson))]) =
        some [some (.array (doc.classes.map classJson))] := rfl
  rw [ofJson?, hrecord]
  show (((doc.classes.map classJson).mapM (class? (levelLimit - 2))).bind fun classes =>
    some (⟨classes⟩ : Document)) = _
  rw [hread]
  rfl

/-- A document is read from the text that it is written as. -/
theorem read?_write {doc : Document} (h : (toJson doc).nesting ≤ levelLimit) :
    read? (write doc) = some doc := by
  unfold read? write
  rw [Json.read?_compact (plain_toJson doc)]
  exact ofJson?_toJson h

end DocumentJson

/-- A document and the text that it is written as make the same graph, or are refused for the same
repeated class. -/
theorem Graph.written_documents_load_alike (source : String) (doc : Document)
    (h : (DocumentJson.toJson doc).nesting ≤ DocumentJson.levelLimit) :
    ofText source (DocumentJson.write doc) = ofDocument source doc := by
  unfold ofText
  rw [DocumentJson.read?_write h]

/-- A name with a quotation mark, a backslash, a control character and a character outside the
first plane, an empty superclass name, and a class that is marked as not anonymous. With a second
class of the same name as the inner one, the text is refused as the document is. -/
theorem Graph.written_documents_load_alike_escaped :
    let inner : ClassDecl := { name := "a$1", superName? := some "" }
    let outer : ClassDecl := {
      name := "q\"\\\x01𝓐", access := 0x600, anonymous? := some false,
      interfaceNames := ["", "null"], fields := [⟨"f", "I", 0xffffffff⟩],
      methods := [⟨"m", "()V", 2, [⟨"a", "m", "()V"⟩]⟩], inner := [inner] }
    (DocumentJson.toJson ⟨[outer]⟩).nesting = 7 ∧
      (∃ g, ofText "g.json" (DocumentJson.write ⟨[outer]⟩) = .ok g ∧
        ofDocument "g.json" ⟨[outer]⟩ = .ok g ∧
        g.classes.toList.map (·.name) = ["q\"\\\x01𝓐", "a$1"] ∧ g.methodCount = 1) ∧
      ofText "g.json" (DocumentJson.write ⟨[outer, inner]⟩) =
        .error (.format "g.json" 0 (.duplicateClass "a$1")) := by
  intro inner outer
  have hloads := written_documents_load_alike "g.json" ⟨[outer]⟩ (by decide)
  have hrepeated := written_documents_load_alike "g.json" ⟨[outer, inner]⟩ (by decide)
  refine ⟨by decide, ?_, hrepeated.trans (by rfl)⟩
  obtain ⟨g, hg⟩ : ∃ g, ofDocument "g.json" ⟨[outer]⟩ = .ok g := ⟨_, rfl⟩
  refine ⟨g, hloads.trans hg, hg, ?_⟩
  cases hg
  exact ⟨by rfl, by rfl⟩

end StableNames
