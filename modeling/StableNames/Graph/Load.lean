-- From a document to a graph. Numbers are given out in the order of the
-- document: a class before the classes inside it. Two classes of one name
-- are refused; all other documents make a graph.
import StableNames.Graph.Basic
import StableNames.Graph.DocumentJson
import StableNames.Problem

namespace StableNames

/-- The first name that already stood before. -/
def firstRepeated? : List String → List String → Option String
  | _, [] => none
  | before, name :: rest =>
    if name ∈ before then some name else firstRepeated? (name :: before) rest

/-! ## Numbering -/

/-- The classes of an outline with the numbers of their members. The next class has the
number `id`, the next field the number `field` and the next method the number `method`. -/
def numberClasses (outer : List (Option ClassId)) (id : ClassId) (field : FieldId)
    (method : MethodId) : List (Option ClassId × ClassDecl) → List ClassInfo
  | [] => []
  | (outer?, d) :: rest =>
    { name := d.name
      access := d.access
      superName? := d.superName?
      interfaceNames := d.interfaceNames
      anonymous? := d.anonymous?
      outer? := outer?
      inner := (List.range outer.length).filter fun c => outer[c]? = some (some id)
      fields := List.range' field d.fields.length
      methods := List.range' method d.methods.length } ::
      numberClasses outer (id + 1) (field + d.fields.length) (method + d.methods.length) rest

/-- The fields of an outline whose first class has the number `id`, in the order of their
numbers. -/
def numberFields (id : ClassId) : List (Option ClassId × ClassDecl) → List FieldInfo
  | [] => []
  | (_, d) :: rest => d.fields.map (fun f => ⟨id, f.name, f.desc⟩) ++ numberFields (id + 1) rest

/-- The methods of an outline whose first class has the number `id`, in the order of their
numbers. -/
def numberMethods (id : ClassId) : List (Option ClassId × ClassDecl) → List MethodInfo
  | [] => []
  | (_, d) :: rest =>
    d.methods.map (fun m => ⟨id, m.name, m.desc, m.access⟩) ++ numberMethods (id + 1) rest

/-! ## Links -/

namespace Graph

/-- The classes that a class names as its superclass and its interfaces. -/
def namedKin (g : Graph) (c : ClassInfo) : Kin where
  super? := c.superName?.bind g.classOf?
  interfaces := c.interfaceNames.filterMap g.classOf?

/-- The links of a class that others name: `named` holds what each class names. -/
def withHeirs (named : List Kin) (c : ClassId) (k : Kin) : Kin :=
  { k with
    subclasses := (List.range named.length).filter fun d =>
      (named.getD d default).super? = some c
    implementers := (List.range named.length).flatMap fun d =>
      ((named.getD d default).interfaces.filter (· = c)).map fun _ => d }

/-- The links between all classes. -/
def allKin (g : Graph) : List Kin :=
  let named := g.classes.toList.map g.namedKin
  named.mapIdx (withHeirs named)

/-- The pairs of a method and another that it lists as related, in order. What names no
method of the graph is dropped, and so is the method itself. -/
def relations (g : Graph) (docs : List MethodDecl) : List (MethodId × MethodId) :=
  (docs.mapIdx fun m d =>
    (d.related.filterMap g.methodOf?).filterMap fun other =>
      if other = m then none else some (m, other)).flatten

/-- The methods related to `m`: the other end of each pair that it is in, once each. -/
def relatives (pairs : List (MethodId × MethodId)) (m : MethodId) : List MethodId :=
  (pairs.filterMap fun (a, b) =>
    if a = m then some b else if b = m then some a else none).eraseDups

/-- The graph of a document. -/
def ofDocument (source : String) (doc : Document) : Except Problem Graph :=
  let outline := doc.outline
  match firstRepeated? [] (outline.map (·.2.name)) with
  | some name => .error (.format source 0 (.duplicateClass name))
  | none =>
    let members : Graph := {
      classes := (numberClasses (outline.map (·.1)) 0 0 0 outline).toArray
      fields := (numberFields 0 outline).toArray
      methods := (numberMethods 0 outline).toArray }
    let pairs := members.relations (outline.flatMap (·.2.methods))
    .ok { members with
      kin := members.allKin.toArray
      related := ((List.range members.methodCount).map (relatives pairs)).toArray }

/-- The graph of a text. -/
def ofText (source text : String) : Except Problem Graph :=
  match DocumentJson.read? text with
  | none => .error (.format source 0 .invalidGraph)
  | some doc => ofDocument source doc

end Graph

end StableNames
