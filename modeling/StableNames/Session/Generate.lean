-- The records of a graph. Classes come in the order of their numbers, each
-- with its fields and then its methods. A class that is not written gets
-- its name all the same, since the classes inside it are named after it.
import StableNames.Session.Classes

namespace StableNames

/-- What a run gives: the text of the snapshot, the counters after it, and what was counted. -/
structure Generated where
  text : String
  counters : Counters
  stats : Tally
  freshNames : Nat
deriving Repr, Inhabited

namespace Session

variable {μ : Type}

/-- Counts in the tally. -/
def count (f : Tally → Tally) : Step Naming Unit :=
  modify fun n => { n with tally := f n.tally }

/-- The record of a field. -/
def fieldRecord (l : Lineage) (owner : String) (f : FieldId) : Step Naming Record := do
  let node := l.graph.field f
  let name ← if isScrambledField node.name then fieldName l f else pure node.name
  count fun t => { t with fields := t.fields + 1 }
  return .ofField owner node.desc node.name name

/-- Whether a method of a class gets a record: it is no initializer, and declared there first. -/
def isWritten (g : Graph) (c : ClassId) (m : MethodId) : Bool :=
  !(g.method m).isInitializer && g.isSource c m

/-- The record of a method. -/
def methodRecord (l : Lineage) (policy : Policy μ) (c : ClassId) (m : MethodId) :
    Step (Naming × μ) Record := do
  let node := l.graph.method m
  let name ←
    if isScrambledMethod node.name then Naming.resolve l policy c m else pure node.name
  (count fun t => { t with methods := t.methods + 1 }).onFirst
  return .ofMethod (l.graph.className c) node.desc node.name name

/-- The records of a class with the new name `target`. -/
def classRecords (settings : Settings) (l : Lineage) (policy : Policy μ) (c : ClassId)
    (target : String) : Step (Naming × μ) (List Record) := do
  let node := l.graph.classInfo c
  if !settings.isIncluded node.name then return []
  (count fun t => { t with classes := t.classes + 1 }).onFirst
  let fields ←
    if settings.mapFields then node.fields.mapM fun f => (fieldRecord l node.name f).onFirst
    else pure []
  let methods ←
    if settings.mapMethods then
      (node.methods.filter (isWritten l.graph c)).mapM (methodRecord l policy c)
    else pure []
  return .ofClass node.name target :: fields ++ methods

/-- What the new name of a class is put behind, given the new names of all classes before it. -/
def surroundings (settings : Settings) (g : Graph) (targets : List String) (c : ClassId) :
    String :=
  match (g.classInfo c).outer? with
  | none => settings.targetNamespace
  | some o => targets.getD o "" ++ "$"

/-- The records of classes, given the new names of all classes before them. -/
def records (settings : Settings) (l : Lineage) (policy : Policy μ) (targets : List String) :
    List ClassId → Step (Naming × μ) (List Record)
  | [] => return []
  | c :: rest => do
    let target ← (classTarget settings l c (surroundings settings l.graph targets c)).onFirst
    let here ← classRecords settings l policy c target.full
    return here ++ (← records settings l policy (targets ++ [target.full]) rest)

/-- The records of all classes, after a report on the patterns of those that are written. -/
def allRecords (settings : Settings) (l : Lineage) (policy : Policy μ) :
    Step (Naming × μ) (List Record) := do
  if !settings.includes.isEmpty then
    let patterns := ", ".intercalate (settings.includes.map (·.source))
    (Naming.report (.info ("[GEN] Include filter: " ++ patterns))).onFirst
  records settings l policy [] l.graph.classIds

/-- What naming and the records of a run come to. -/
def result (n : Naming) (rs : List Record) : Generated where
  text := writeSnapshot officialNamespace stableNamespace
    (rs ++ [.verbatim n.allocator.counters.lines])
  counters := n.allocator.counters
  stats := { n.tally with renamed := n.tally.renamed + n.renamed }
  freshNames := n.allocator.allocated

/-- Names every symbol of the graph. What was named stays in the session, and what the
policy remembers is given back too. -/
def generate (s : Session) (policy : Policy μ) (memory : μ) :
    Except Problem Generated × Session × μ :=
  match (allRecords s.settings s.lineage policy).exec (s.naming, memory) with
  | (.error problem, naming, memory) => (.error problem, { s with naming }, memory)
  | (.ok rs, naming, memory) => (.ok (result naming rs), { s with naming }, memory)

end Session

end StableNames
