-- Stores lead from the names of one namespace to those of another. A
-- store is a pair of tables, or the identity, which answers every question
-- with the name it was asked for.
import StableNames.Assoc
import StableNames.Descriptor
import StableNames.Snapshot.Basic

namespace StableNames

/-- The names that the classes and the members of one namespace have in the other. -/
structure Tables where
  classes : Assoc String String := ∅
  members : Assoc Member Member := ∅
deriving Repr, Inhabited

inductive Store where
  | tables (tables : Tables)
  | identity
deriving Repr

namespace Store

/-- A store without entries. -/
def empty : Store := .tables {}

def lookupClass (store : Store) (name : String) : Option String :=
  match store with
  | .tables t => t.classes.get? name
  | .identity => some name

def lookupMember (store : Store) (member : Member) : Option Member :=
  match store with
  | .tables t => t.members.get? member
  | .identity => some member

/-- The store with one more class; the identity takes none. -/
def addClass (store : Store) (source target : String) : Store :=
  match store with
  | .tables t => .tables { t with classes := t.classes.insert source target }
  | .identity => .identity

/-- The store with one more field or method; the identity takes none. -/
def addMember (store : Store) (source target : Member) : Store :=
  match store with
  | .tables t => .tables { t with members := t.members.insert source target }
  | .identity => .identity

end Store

/-! ## A store from a snapshot -/

/-- The names of the classes of the first namespace in the namespace at `i`. -/
def Snapshot.classesTo (s : Snapshot) (i : Nat) : Assoc String String :=
  .ofList (s.classes.map fun names => (names.getD 0 "", names.getD i ""))

/-- A member in the namespace at `i`, where classes go by the names in `classes`. A class
without a record keeps its name. -/
def MemberRecord.memberIn (r : MemberRecord) (classes : Assoc String String) (i : Nat) : Member :=
  ⟨(classes.get? r.owner).getD r.owner, r.names.getD i "", Descriptor.remap classes.get? r.desc⟩

/-- The tables that lead from the namespace at `i` to the one at `j`. -/
def Snapshot.tables (s : Snapshot) (i j : Nat) : Tables where
  classes := .ofList (s.classes.map fun names => (names.getD i "", names.getD j ""))
  members := .ofList <| (s.fields ++ s.methods).map fun r =>
    (r.memberIn (s.classesTo i) i, r.memberIn (s.classesTo j) j)

/-- The place of a namespace that a store asks for. -/
def Snapshot.requireNamespace (s : Snapshot) (name : String) : Except Problem Nat :=
  match s.namespaceIndex? name with
  | some i => .ok i
  | none => .error (.format "mapping header" 1 (.unknownNamespace name s.namespaces))

/-- The store that leads from one namespace of a snapshot to another. -/
def Store.ofSnapshot (s : Snapshot) (source target : String) : Except Problem Store := do
  let i ← s.requireNamespace source
  let j ← s.requireNamespace target
  return .tables (s.tables i j)

end StableNames
