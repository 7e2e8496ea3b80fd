-- Matches between two versions. A line `c` pairs an old class with a new
-- one and opens a block; the lines `m` and `f` of the block pair methods
-- and fields of the two classes. Every other line is passed over.
import StableNames.Store

namespace StableNames

/-- A symbol of one version and its match in the other. -/
inductive Match where
  | ofClass (source target : String)
  | ofField (source target : Member)
  | ofMethod (source target : Member)
deriving DecidableEq, Repr

/-- The match seen from the other side. -/
def Match.swap : Match → Match
  | .ofClass source target => .ofClass target source
  | .ofField source target => .ofField target source
  | .ofMethod source target => .ofMethod target source

@[simp] theorem Match.swap_swap (m : Match) : m.swap.swap = m := by cases m <;> rfl

/-- What a reading of a text gives: the matches up to its end or to its first faulty line. -/
structure Matches where
  pairs : List Match
  fault? : Option Problem := none
deriving DecidableEq, Repr

namespace Matches

/-- A class, bare or between L and a semicolon. -/
def className (token : List Char) : String :=
  match token with
  | 'L' :: rest => String.ofList (if rest.getLast? = some ';' then rest.dropLast else token)
  | _ => String.ofList token

/-- The name and descriptor of `name(arguments)result`. -/
def splitMethod? (token : List Char) : Option (String × String) :=
  match Text.splitFirst? ['('] token with
  | some (name, rest) =>
    if name.isEmpty then none else some (String.ofList name, String.ofList ('(' :: rest))
  | none => none

/-- The name and descriptor of `name;;descriptor`. -/
def splitField? (token : List Char) : Option (String × String) :=
  match Text.splitFirst? [';', ';'] token with
  | some (name, desc) =>
    if name.isEmpty || desc.isEmpty then none else some (String.ofList name, String.ofList desc)
  | none => none

/-- The classes of the block that is open, old and new. -/
abbrev Block := Option (String × String)

/-- The match of a line `c`. -/
def readClass (columns : List (List Char)) : Except FormatFault (Option Match) :=
  match columns with
  | old :: new :: _ =>
    if old.isEmpty || new.isEmpty then .error .classPair
    else .ok (some (.ofClass (className old) (className new)))
  | _ => .error .classPair

/-- The match of a line `m` or `f`, made by `pair`, whose tokens are cut by `split`. -/
def readMember (block : Block) (split : List Char → Option (String × String))
    (pair : Member → Member → Match) (line : List Char) (columns : List (List Char)) :
    Except FormatFault (Option Match) :=
  match block, columns with
  | none, _ => .error .memberBeforeClass
  | some (oldOwner, newOwner), old :: new :: _ =>
    match split old, split new with
    | some (oldName, oldDesc), some (newName, newDesc) =>
      .ok (some (pair ⟨oldOwner, oldName, oldDesc⟩ ⟨newOwner, newName, newDesc⟩))
    | _, _ => .error (.malformedMember (String.ofList line))
  | some _, _ => .error .memberPair

/-- The match of a line, if it holds one. -/
def readLine (block : Block) (line : List Char) : Except FormatFault (Option Match) :=
  if (Text.trim line).isEmpty then .ok none
  else
    match line with
    | 'c' :: '\t' :: rest => readClass (rest.splitOn '\t')
    | '\t' :: rest =>
      match rest.splitOn '\t' with
      | ['m'] :: columns => readMember block splitMethod? .ofMethod rest columns
      | ['f'] :: columns => readMember block splitField? .ofField rest columns
      | _ => .ok none
    | _ => .ok none

/-- The block after a match. -/
def blockAfter (block : Block) : Option Match → Block
  | some (.ofClass old new) => some (old, new)
  | _ => block

/-- The matches in lines that are numbered from `number`. -/
def readLines (source : String) (number : Nat) (block : Block) : List (List Char) → Matches
  | [] => { pairs := [] }
  | line :: rest =>
    match readLine block line with
    | .error fault => { pairs := [], fault? := some (.format source number fault) }
    | .ok found =>
      let after := readLines source (number + 1) (blockAfter block found) rest
      { after with pairs := found.toList ++ after.pairs }

/-- The matches seen from the other side. -/
def swap (m : Matches) : Matches := { m with pairs := m.pairs.map Match.swap }

/-- The matches in a text, from old to new, or from new to old if they are to be swapped. -/
def read (source text : String) (swapped : Bool) : Matches :=
  let matches_ := readLines source 1 none (Text.lines text.toList)
  if swapped then matches_.swap else matches_

/-- The number of matches, or the fault that ended the reading. -/
def count (m : Matches) : Except Problem Nat :=
  match m.fault? with
  | some fault => .error fault
  | none => .ok m.pairs.length

end Matches

/-- The store with one more match. -/
def Store.addMatch (store : Store) : Match → Store
  | .ofClass source target => store.addClass source target
  | .ofField source target => store.addMember source target
  | .ofMethod source target => store.addMember source target

/-- The store with all matches, in order. -/
def Store.addMatches (store : Store) (m : Matches) : Store :=
  m.pairs.foldl Store.addMatch store

end StableNames
