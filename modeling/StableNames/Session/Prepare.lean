-- Three ways to prepare a session: from the output of an earlier run on
-- the same version, from an earlier version and its matches, and from a
-- snapshot of the same version that is to be derived anew.
import StableNames.Files.Staged
import StableNames.Graph.Load
import StableNames.Matches
import StableNames.Session.Generate

namespace StableNames

/-- The counters in a file. -/
def FileTree.loadCounters (t : FileTree) (path : String) :
    Except Problem (List (Category × Nat)) := do
  readCounters path (← t.load path)

/-- The snapshot in a file. -/
def FileTree.loadSnapshot (t : FileTree) (path : String) : Except Problem Snapshot := do
  readSnapshot path (← t.load path)

/-- The matches in a file. -/
def FileTree.loadMatches (t : FileTree) (path : String) (swapped : Bool) :
    Except Problem Matches := do
  return Matches.read path (← t.load path) swapped

/-- The graph in a file. -/
def FileTree.loadGraph (t : FileTree) (path : String) : Except Problem Graph := do
  Graph.ofText path (← t.load path)

/-- The file that counters are read from: the counter file if it is there, or else the
mappings themselves. -/
def counterSource (t : FileTree) (mappings : String) (counterFile? : Option String) : String :=
  match counterFile? with
  | some path => if t.has path then path else mappings
  | none => mappings

namespace Session

/-- Reads the counters of a file and sets them. -/
def readCountersOf (t : FileTree) (path : String) : Step Session Unit := do
  modify (·.report (.info s!"[GEN] Reading counters from {path}"))
  let counters ← .ofExcept (t.loadCounters path)
  modify (·.applyCounters counters)

/-- Sets the counters that go with mappings whose own counters are `embedded`. -/
def resumeCounters (t : FileTree) (mappings : String) (embedded : List (Category × Nat)) :
    Step Session Unit := do
  let path := counterSource t mappings (← get).settings.counterFile?
  if Path.same path mappings then modify (·.applyCounters embedded) else readCountersOf t path

/-- The store from official names to stable names in a snapshot. -/
def stableStore (s : Snapshot) : Except Problem Store :=
  Store.ofSnapshot s officialNamespace stableNamespace

/-- Takes the names and counters of an existing output, and tells whether there was one.
Without it, an existing counter file still sets the counters. -/
def prepareRegenerate (t : FileTree) (output : String) : Step Session Bool := do
  if !t.has output then
    if let some path := (← get).settings.counterFile? then
      if t.has path then readCountersOf t path
    return false
  modify (·.report (.info s!"[GEN] Target file exists - loading {output}"))
  let snapshot ← .ofExcept (t.loadSnapshot output)
  let store ← .ofExcept (stableStore snapshot)
  modify (·.setCurrent store)
  resumeCounters t output snapshot.counters
  return true

/-- Takes the names of an earlier version by way of its matches. -/
def prepareUpdate (t : FileTree) (mappings matchesFile : String) : Step Session Unit := do
  let snapshot ← .ofExcept (t.loadSnapshot mappings)
  resumeCounters t mappings snapshot.counters
  let found ← .ofExcept (t.loadMatches matchesFile true)
  let count ← .ofExcept found.count
  modify (·.report (.info s!"[GEN] Loaded {count} matched symbols"))
  let names ← .ofExcept (stableStore snapshot)
  modify (·.setEarlier { toOld := Store.empty.addMatches found, names })

/-- Takes the names of a snapshot of the same version, each of which is derived anew. -/
def prepareRederive (t : FileTree) (mappings : String) : Step Session Unit := do
  let snapshot ← .ofExcept (t.loadSnapshot mappings)
  resumeCounters t mappings snapshot.counters
  let names ← .ofExcept (stableStore snapshot)
  modify (·.setEarlier { toOld := .identity, names })

end Session

/-! ## Writing the result -/

namespace Generated

/-- Writes the snapshot, and before it the counters if they have a file. -/
def commit (r : Generated) (t : FileTree) (output : String) (counterFile? : Option String) :
    Except Problem Notice × FileTree :=
  let files :=
    match counterFile? with
    | some path => [(path, r.counters.lines), (output, r.text)]
    | none => [(output, r.text)]
  match t.replaceAll files with
  | (.error fault, t) => (.error (.file fault), t)
  | (.ok (), t) =>
    (.ok (.info (s!"[GEN] Wrote {output} ({r.stats.classes} classes, {r.stats.fields} fields, " ++
      s!"{r.stats.methods} methods)")), t)

end Generated

end StableNames
