-- Counters of the three categories, and the lines that keep them between
-- runs. A counter is the number that the next name gets. It is written as
-- a remark, so a reader of records passes over it.
import StableNames.Problem
import StableNames.Text.Lines
import StableNames.Text.Blank

namespace StableNames

/-- The next number of each category that has one. -/
structure Counters where
  classes : Option Nat := none
  fields : Option Nat := none
  methods : Option Nat := none
deriving DecidableEq, Repr, Inhabited

namespace Counters

def get? (cs : Counters) : Category → Option Nat
  | .ofClass => cs.classes
  | .ofField => cs.fields
  | .ofMethod => cs.methods

def set (cs : Counters) (c : Category) (n : Nat) : Counters :=
  match c with
  | .ofClass => { cs with classes := some n }
  | .ofField => { cs with fields := some n }
  | .ofMethod => { cs with methods := some n }

/-- The counters after a list of settings, read from the left. -/
def setAll (cs : Counters) (settings : List (Category × Nat)) : Counters :=
  settings.foldl (fun cs e => cs.set e.1 e.2) cs

/-- The counters that are set, in the order of the categories. -/
def toList (cs : Counters) : List (Category × Nat) :=
  Category.all.filterMap fun c => (cs.get? c).map (c, ·)

theorem get?_set (cs : Counters) (c c' : Category) (n : Nat) :
    (cs.set c n).get? c' = if c = c' then some n else cs.get? c' := by
  cases c <;> cases c' <;> rfl

end Counters

/-! ## Counter lines -/

/-- What a counter line starts with. -/
def counterPrefix : String := "# INTERMEDIARY-COUNTER"

/-- The line of a counter. -/
def counterLine (c : Category) (n : Nat) : String :=
  s!"{counterPrefix} {c.word} {n}\n"

/-- The lines of all counters that are set. -/
def Counters.lines (cs : Counters) : String :=
  String.join (cs.toList.map fun e => counterLine e.1 e.2)

/-- The category and number that the words after the start of the line `line` name. -/
def readCounterWords (line : String) : List (List Char) → Except CounterFault (Category × Nat)
  | [word, value] =>
    match Category.ofWord? (String.ofList word) with
    | none => .error (.unknownCategory (String.ofList word))
    | some c =>
      match Text.readNumeral Text.wordLimit value with
      | .ok n => .ok (c, n)
      | .error fault => .error (.invalidValue (String.ofList value) fault)
  | _ => .error (.malformed line)

/-- What a line says about a counter; nothing if it is no counter line. -/
def readCounterLine (line : String) : Option (Except CounterFault (Category × Nat)) :=
  (Text.after? counterPrefix.toList line.toList).map fun rest =>
    readCounterWords line (Text.words rest)

/-- The counters in lines that are numbered from `number`; all other lines are passed over. -/
def readCounterLines (source : String) (number : Nat) :
    List String → Except Problem (List (Category × Nat))
  | [] => .ok []
  | line :: rest => do
    match readCounterLine line with
    | none => readCounterLines source (number + 1) rest
    | some (.error fault) => .error (.format source number (.counter fault))
    | some (.ok counter) => return counter :: (← readCounterLines source (number + 1) rest)

/-- The counters in a text, in file order. -/
def readCounters (source text : String) : Except Problem (List (Category × Nat)) :=
  readCounterLines source 1 (Text.linesOf text)

end StableNames
