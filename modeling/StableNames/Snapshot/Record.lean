-- Records of a snapshot of two namespaces, as they are written.
import StableNames.Snapshot.Basic

namespace StableNames

/-- A line of output: a record, or text that stands as it is. -/
inductive Record where
  | ofClass (source target : String)
  | ofField (owner desc source target : String)
  | ofMethod (owner desc source target : String)
  | verbatim (text : String)
deriving DecidableEq, Repr

/-- The record with its line end. -/
def Record.text : Record → String
  | .ofClass source target => Text.lineOf ["CLASS", source, target]
  | .ofField owner desc source target => Text.lineOf ["FIELD", owner, desc, source, target]
  | .ofMethod owner desc source target => Text.lineOf ["METHOD", owner, desc, source, target]
  | .verbatim text => text

/-- The text of a snapshot that maps names of one namespace to names of another. -/
def writeSnapshot (source target : String) (records : List Record) : String :=
  Text.lineOf [snapshotVersion, source, target] ++ String.join (records.map Record.text)

end StableNames
