-- One name for each family of methods. The name of a family is settled
-- once and then kept for all its members. A family without an earlier name
-- gets a fresh one, a family with one earlier name keeps it if it carries
-- the marker, and a family with several is a conflict.
import StableNames.Naming.Allocator
import StableNames.Naming.Conflict
import StableNames.Step

namespace StableNames

/-- What was written and decided so far. -/
structure Tally where
  classes : Nat := 0
  fields : Nat := 0
  methods : Nat := 0
  renamed : Nat := 0
  decided : Nat := 0
deriving DecidableEq, Repr, Inhabited

/-- All that names depend on and that naming changes: the numbers given out, the names of
the methods that are settled, how many families lost a stale name, what was counted, and
what was reported. -/
structure Naming where
  allocator : Allocator := {}
  resolved : Assoc MethodId String := ∅
  renamed : Nat := 0
  tally : Tally := {}
  log : List Notice := []
deriving Repr, Inhabited

/-- A conflict that waits for a decision, and the methods that the decision names. -/
structure Pending where
  conflict : Conflict
  method : MethodId
  family : List MethodId
deriving Repr

inductive Resolution where
  | settled (name : String)
  | pending (conflict : Pending)
deriving Repr

namespace Naming

/-- Adds a report to the log. -/
def report (notice : Notice) : Step Naming Unit :=
  modify fun n => { n with log := n.log ++ [notice] }

/-- The name of a symbol from the allocator. -/
def allocate (symbol : Symbol) (category : Category) : Step Naming String := do
  match (← get).allocator.allocate symbol category with
  | .error problem => throw problem
  | .ok (name, allocator) =>
    modify fun n => { n with allocator }
    return name

/-- A fresh name for a symbol whose name `stale` cannot stay. -/
def replace (stale : String) (symbol : Symbol) (category : Category) : Step Naming String := do
  let name ← allocate symbol category
  report (.info s!"{stale} is now {name}")
  return name

/-- Keeps the name of a method and its family. -/
def remember (method : MethodId) (family : List MethodId) (name : String) : Step Naming Unit :=
  modify fun n => { n with resolved := n.resolved.insertAll (method :: family) name }

/-- Settles a family that has at most one earlier name. -/
def settle (method : MethodId) (family : List MethodId) (candidate? : Option Candidate) :
    Step Naming String := do
  let name ←
    match candidate? with
    | none => allocate (.ofMethod method) .ofMethod
    | some candidate =>
      if Category.ofMethod.owns candidate.name then pure candidate.name
      else
        let name ← replace candidate.name (.ofMethod method) .ofMethod
        modify fun n => { n with renamed := n.renamed + 1 }
        pure name
  remember method family name
  return name

/-- The name of a method of `c`, or the conflict that has to be decided first. -/
def begin (l : Lineage) (c : ClassId) (m : MethodId) : Step Naming Resolution := do
  let known := (← get).resolved
  if let some name := known.get? m then
    return .settled name
  let family := l.graph.family c m
  if let some name := family.findSome? known.get? then
    remember m [] name
    return .settled name
  match l.candidates c m with
  | [] => .settled <$> settle m family none
  | [candidate] => .settled <$> settle m family (some candidate)
  | candidates =>
    let node := l.graph.method m
    let member : Member := ⟨l.graph.className c, node.name, node.desc⟩
    let conflict : Conflict := ⟨member.label, candidates⟩
    report <| .warning <|
      s!"[CONFLICT] {conflict.symbol} matched {candidates.length} names: " ++
        ", ".intercalate conflict.names
    return .pending ⟨conflict, m, family⟩

/-- Names the family of a conflict after the candidate at `place`. -/
def complete (pending : Pending) (place : Nat) : Step Naming String := do
  match pending.conflict.candidates[place]? with
  | none => throw (.unresolved pending.conflict.symbol)
  | some candidate =>
    remember pending.method pending.family candidate.name
    report (.info s!"[CONFLICT] {pending.conflict.symbol} resolved to {candidate.name}")
    return candidate.name

/-- What a policy decides on a conflict. -/
def consult {μ : Type} (policy : Policy μ) (conflict : Conflict) : Step (Naming × μ) Nat := do
  let (n, memory) ← get
  let decision := policy.decide conflict memory
  set ({ n with log := n.log ++ decision.notices }, decision.memory)
  match decision.answer with
  | .error problem => throw problem
  | .ok place => return place

/-- The name of a method of `c`, with conflicts decided by a policy. -/
def resolve {μ : Type} (l : Lineage) (policy : Policy μ) (c : ClassId) (m : MethodId) :
    Step (Naming × μ) String := do
  match ← (begin l c m).onFirst with
  | .settled name => return name
  | .pending pending =>
    let place ← consult policy pending.conflict
    modify fun (n, memory) =>
      ({ n with tally := { n.tally with decided := n.tally.decided + 1 } }, memory)
    (complete pending place).onFirst

end Naming

end StableNames
