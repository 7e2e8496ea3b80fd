-- Mapping snapshots. A snapshot gives each class, field and method one
-- name per namespace; owners and descriptors are written in the first
-- namespace. Counters stand among the records as remarks.
import StableNames.Counters

namespace StableNames

/-- The namespace of the names that are found in the graph. -/
def officialNamespace : String := "official"

/-- The namespace of the names that are handed out. -/
def stableNamespace : String := "intermediary"

/-- A field or method of a snapshot, with its name in each namespace. -/
structure MemberRecord where
  owner : String
  desc : String
  names : List String
deriving DecidableEq, Repr

/-- What a line of a snapshot holds. -/
inductive Entry where
  | remark
  | counter (category : Category) (value : Nat)
  | ofClass (names : List String)
  | ofField (record : MemberRecord)
  | ofMethod (record : MemberRecord)
deriving DecidableEq, Repr

structure Snapshot where
  namespaces : List String
  entries : List Entry
deriving DecidableEq, Repr

namespace Snapshot

/-- The names of each class, in file order. -/
def classes (s : Snapshot) : List (List String) :=
  s.entries.filterMap fun | .ofClass names => some names | _ => none

def fields (s : Snapshot) : List MemberRecord :=
  s.entries.filterMap fun | .ofField record => some record | _ => none

def methods (s : Snapshot) : List MemberRecord :=
  s.entries.filterMap fun | .ofMethod record => some record | _ => none

/-- The counters, in file order. -/
def counters (s : Snapshot) : List (Category × Nat) :=
  s.entries.filterMap fun | .counter category value => some (category, value) | _ => none

/-- The first place of a namespace in the header. -/
def namespaceIndex? (s : Snapshot) (name : String) : Option Nat :=
  s.namespaces.idxOf? name

end Snapshot

/-! ## Reading -/

/-- The version that stands first in every snapshot. -/
def snapshotVersion : String := "v1"

/-- The namespaces of a header. -/
def readHeader (header : String) : Except FormatFault (List String) :=
  match Text.columnsOf header with
  | version :: namespaces =>
    if version = snapshotVersion then
      if namespaces.length < 2 then .error .fewNamespaces else .ok namespaces
    else .error (.unknownVersion header)
  | [] => .error (.unknownVersion header)

/-- The columns after the kind of a record, if there are as many as needed and none is empty. -/
def readColumns (kind : String) (needed : Nat) (columns : List String) :
    Except FormatFault (List String) :=
  if columns.length + 1 = needed ∧ "" ∉ columns then .ok columns
  else .error (.columns kind needed (columns.length + 1))

/-- The record of a field or method with `count` names. -/
def readMember (kind : String) (count : Nat) (columns : List String) :
    Except FormatFault MemberRecord := do
  match ← readColumns kind (3 + count) columns with
  | owner :: desc :: names => return ⟨owner, desc, names⟩
  | _ => throw (.columns kind (3 + count) (columns.length + 1))

/-- What a line holds in a snapshot of `count` namespaces. -/
def readEntry (count : Nat) (line : String) : Except FormatFault Entry :=
  if (Text.trim line.toList).isEmpty then .ok .remark
  else if line.toList.head? = some '#' then
    match readCounterLine line with
    | none => .ok .remark
    | some (.ok (category, value)) => .ok (.counter category value)
    | some (.error fault) => .error (.counter fault)
  else
    match Text.columnsOf line with
    | "CLASS" :: columns => .ofClass <$> readColumns "CLASS" (1 + count) columns
    | "FIELD" :: columns => .ofField <$> readMember "FIELD" count columns
    | "METHOD" :: columns => .ofMethod <$> readMember "METHOD" count columns
    | kind :: _ => .error (.unknownRecord kind)
    | [] => .error (.unknownRecord "")

/-- What lines numbered from `number` hold. The first faulty line is the one reported. -/
def readEntries (source : String) (count number : Nat) :
    List String → Except Problem (List Entry)
  | [] => .ok []
  | line :: rest =>
    match readEntry count line with
    | .error fault => .error (.format source number fault)
    | .ok entry => (entry :: ·) <$> readEntries source count (number + 1) rest

/-- The snapshot in a text. -/
def readSnapshot (source text : String) : Except Problem Snapshot :=
  match Text.linesOf text with
  | [] => .error (.format source 1 .emptySnapshot)
  | header :: body =>
    match readHeader header with
    | .error fault => .error (.format source 1 fault)
    | .ok namespaces =>
      (Snapshot.mk namespaces ·) <$> readEntries source namespaces.length 2 body

end StableNames
