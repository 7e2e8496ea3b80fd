-- The summary of a run, for readers or for scripts.
import StableNames.Command.Basic

namespace StableNames.Generated

/-- One line on what was written, and in full also what was counted and the counters. -/
def summaryText (r : Generated) (output : String) (inFull : Bool) : String :=
  s!"{output}: {r.stats.classes} classes, {r.stats.fields} fields, {r.stats.methods} methods\n" ++
    if inFull then
      s!"fresh: {r.freshNames}, renamed: {r.stats.renamed}, conflicts: {r.stats.decided}\n" ++
        r.counters.lines
    else ""

/-- The counts as an object. -/
def statsJson (r : Generated) : Json :=
  .ofMembers [
    ("classes", .ofNat r.stats.classes),
    ("fields", .ofNat r.stats.fields),
    ("methods", .ofNat r.stats.methods),
    ("fresh_names", .ofNat r.freshNames),
    ("renamed_stale", .ofNat r.stats.renamed),
    ("conflicts_resolved", .ofNat r.stats.decided)]

/-- The summary as an object. -/
def summaryJson (r : Generated) (output : String) : Json :=
  .ofMembers [
    ("_type", .ofString "intermediary_summary"),
    ("output", .ofString output),
    ("stats", r.statsJson),
    ("counters", .ofMembers (r.counters.toList.map fun (c, n) => (c.word, .ofNat n)))]

def summary (r : Generated) (c : Command) : String :=
  match c.format with
  | .text => r.summaryText c.output c.verbose
  | .json => (r.summaryJson c.output).pretty 0 ++ "\n"

end StableNames.Generated
