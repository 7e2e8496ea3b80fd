-- Documents as JSON. A record is an object, or an array of its values in
-- the order of its keys. Unknown keys are passed over and may repeat;
-- known ones may not. Values that are read may be nested 127 levels deep.
import StableNames.Graph.Document
import StableNames.Json.Reader
import StableNames.Json.Writer

namespace StableNames.DocumentJson

/-! ## Keys -/

def documentKeys : List String := ["classes"]

def classKeys : List String :=
  ["name", "access", "super", "interfaces", "anonymous", "fields", "methods", "inner"]

def fieldKeys : List String := ["name", "desc", "access"]

def methodKeys : List String := ["name", "desc", "access", "related"]

def memberKeys : List String := ["owner", "name", "desc"]

/-! ## Reading -/

/-- The value of each key in an object: nothing for a missing one. -/
def valuesOf? (keys : List String) (members : List (Option String × Json)) :
    Option (List (Option Json)) := do
  let members ← members.mapM fun (key, j) => key.map (·, j)
  keys.mapM fun key =>
    match members.filter (·.1 = key) with
    | [] => some none
    | [(_, j)] => some (some j)
    | _ => none

/-- The values of a record in the order of its keys: nothing for a missing one. -/
def record? (keys : List String) : Json → Option (List (Option Json))
  | .object members => valuesOf? keys members
  | .array items =>
    if items.length ≤ keys.length then
      some (items.map some ++ List.replicate (keys.length - items.length) none)
    else none
  | _ => none

def text? : Json → Option String
  | .string value? => value?
  | _ => none

/-- An access word: digits alone, below the limit of a word. -/
def access? : Json → Option UInt32
  | .number literal =>
    match literal with
    | '-' :: _ | '+' :: _ => none
    | _ => (Text.readNumeral Text.wordLimit literal).toOption.map UInt32.ofNat
  | _ => none

/-- A value that may be null. -/
def nullable? {α : Type} (read : Json → Option α) : Json → Option (Option α)
  | .null => some none
  | j => (read j).map some

def flag? : Json → Option Bool
  | .bool b => some b
  | _ => none

/-- A value that may be missing. -/
def orElse? {α : Type} (default : α) (read : Json → Option α) : Option Json → Option α
  | none => some default
  | some j => read j

/-- An array with `levels` levels left for it and all that is in it. -/
def items? {α : Type} (levels : Nat) (read : Nat → Json → Option α) : Json → Option (List α)
  | .array items =>
    match levels with
    | 0 => none
    | levels + 1 => items.mapM (read levels)
  | _ => none

def member? : Nat → Json → Option Member
  | 0, _ => none
  | _ + 1, j => do
    match ← record? memberKeys j with
    | [some owner, some name, some desc] =>
      return ⟨← text? owner, ← text? name, ← text? desc⟩
    | _ => none

def field? : Nat → Json → Option FieldDecl
  | 0, _ => none
  | _ + 1, j => do
    match ← record? fieldKeys j with
    | [some name, some desc, access] =>
      return ⟨← text? name, ← text? desc, ← orElse? 0 access? access⟩
    | _ => none

def method? : Nat → Json → Option MethodDecl
  | 0, _ => none
  | levels + 1, j => do
    match ← record? methodKeys j with
    | [some name, some desc, access, related] =>
      return ⟨← text? name, ← text? desc, ← orElse? 0 access? access,
        ← orElse? [] (items? levels member?) related⟩
    | _ => none

def class? : Nat → Json → Option ClassDecl
  | 0, _ => none
  | levels + 1, j => do
    match ← record? classKeys j with
    | [some name, access, superName, interfaces, anonymous, fields, methods, inner] =>
      let inner ←
        match inner with
        | none => some []
        | some (.array items) =>
          match levels with
          | 0 => none
          | levels + 1 => items.mapM (class? levels)
        | some _ => none
      return {
        name := ← text? name
        access := ← orElse? 0 access? access
        superName? := ← orElse? none (nullable? text?) superName
        interfaceNames := ← orElse? [] (items? levels fun _ => text?) interfaces
        anonymous? := ← orElse? none (nullable? flag?) anonymous
        fields := ← orElse? [] (items? levels field?) fields
        methods := ← orElse? [] (items? levels method?) methods
        inner }
    | _ => none

/-- How deep values may be nested. -/
def levelLimit : Nat := 127

/-- The document in a value. -/
def ofJson? (j : Json) : Option Document := do
  match ← record? documentKeys j with
  | [classes] => return ⟨← orElse? [] (items? (levelLimit - 1) class?) classes⟩
  | _ => none

/-- The document in a text. -/
def read? (text : String) : Option Document := (Json.read? text).bind ofJson?

/-! ## Writing -/

/-- A member of an object that is left out for an empty list. -/
def listMember (key : String) (items : List Json) : List (String × Json) :=
  if items.isEmpty then [] else [(key, .array items)]

def memberJson (m : Member) : Json :=
  .ofMembers [("owner", .ofString m.owner), ("name", .ofString m.name), ("desc", .ofString m.desc)]

def accessMember (access : UInt32) : String × Json := ("access", .ofNat access.toNat)

def fieldJson (f : FieldDecl) : Json :=
  .ofMembers [("name", .ofString f.name), ("desc", .ofString f.desc), accessMember f.access]

def methodJson (m : MethodDecl) : Json :=
  .ofMembers <|
    [("name", .ofString m.name), ("desc", .ofString m.desc), accessMember m.access] ++
      listMember "related" (m.related.map memberJson)

mutual

def classJson : ClassDecl → Json
  | ⟨name, access, superName?, interfaceNames, anonymous?, fields, methods, inner⟩ =>
    .ofMembers <|
      [("name", .ofString name), accessMember access] ++
      superName?.toList.map (fun s => ("super", .ofString s)) ++
      listMember "interfaces" (interfaceNames.map .ofString) ++
      anonymous?.toList.map (fun b => ("anonymous", .bool b)) ++
      listMember "fields" (fields.map fieldJson) ++
      listMember "methods" (methods.map methodJson) ++
      listMember "inner" (classesJson inner)

def classesJson : List ClassDecl → List Json
  | [] => []
  | d :: rest => classJson d :: classesJson rest

end

def toJson (doc : Document) : Json := .ofMembers [("classes", .array (classesJson doc.classes))]

/-- The text of a document. -/
def write (doc : Document) : String := (toJson doc).compact

end StableNames.DocumentJson
