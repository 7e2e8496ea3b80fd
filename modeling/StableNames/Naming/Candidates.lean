-- Candidates: the names that a family had before. Each class of each slot
-- of the family is asked, first in the store for the same version and then
-- by way of its match in the earlier version. A match without a name of
-- its own stands for its slot in the old hierarchy.
import StableNames.Chain
import StableNames.Graph.Ancestry
import StableNames.Naming.Family

namespace StableNames

/-- Where names come from: the graph that is named, the graph of the earlier version if
there is one, and the stores. -/
structure Lineage where
  graph : Graph
  old? : Option Graph := none
  chain : Chain := {}
deriving Inhabited

/-- An earlier name and the class that has it. -/
structure Hit where
  name : String
  origin : String
deriving DecidableEq, Repr

/-- A candidate name, with everything that has it. -/
structure Candidate where
  name : String
  origins : List String
deriving DecidableEq, Repr

/-- A list in order, without repetitions. -/
def sortedSet (names : List String) : List String :=
  names.eraseDups.mergeSort fun a b => decide (a ≤ b)

/-- The candidates among the hits, sorted by name. -/
def Candidate.ofHits (hits : List Hit) : List Candidate :=
  (sortedSet (hits.map (·.name))).map fun name =>
    ⟨name, sortedSet ((hits.filter (·.name = name)).map (·.origin))⟩

namespace Lineage

/-- The names that the slot of an old method has in the old hierarchy. -/
def oldHits (l : Lineage) (names : Store) (old : Member) (suffix : String) : List Hit :=
  match l.old? with
  | none => []
  | some g =>
    match g.classOf? old.owner with
    | none => []
    | some c =>
      match g.methodIn? c (methodKey old.name old.desc) with
      | none => []
      | some m =>
        (g.slot c m).filterMap fun d =>
          (names.lookupMember ⟨g.className d, old.name, old.desc⟩).map fun hit =>
            ⟨hit.name, g.origin d ++ suffix⟩

/-- The names that a class had before for a method of this name and descriptor. -/
def classHits (l : Lineage) (name desc suffix : String) (c : ClassId) : List Hit :=
  let member : Member := ⟨l.graph.className c, name, desc⟩
  match l.chain.currentMember member with
  | some hit => [⟨hit.name, l.graph.origin c ++ suffix⟩]
  | none =>
    match l.chain.earlier? with
    | none => []
    | some earlier =>
      match earlier.toOld.lookupMember member with
      | none => []
      | some old =>
        match earlier.names.lookupMember old with
        | some hit => [⟨hit.name, l.graph.origin c ++ suffix⟩]
        | none => l.oldHits earlier.names old suffix

/-- A method behind its class in an origin. -/
def suffixOf (m : MethodInfo) : String :=
  "." ++ m.name ++ m.desc ++ if m.isBridge then "(bridge)" else ""

/-- The names that a slot had before. -/
def slotHits (l : Lineage) (c : ClassId) (m : MethodId) : List Hit :=
  let node := l.graph.method m
  (l.graph.slot c m).flatMap (l.classHits node.name node.desc (suffixOf node))

/-- The names that the family of a method of `c` had before. -/
def hits (l : Lineage) (c : ClassId) (m : MethodId) : List Hit :=
  (l.graph.visits c m).flatMap fun (d, n) => l.slotHits d n

/-- The candidates for the family of a method of `c`. -/
def candidates (l : Lineage) (c : ClassId) (m : MethodId) : List Candidate :=
  Candidate.ofHits (l.hits c m)

end Lineage

end StableNames
