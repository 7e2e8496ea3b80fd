-- Conflicts: families with more than one earlier name. A policy picks one
-- of the candidates, looking only at what the conflict shows, and may
-- remember what it did before.
import StableNames.Naming.Candidates
import StableNames.Notice
import StableNames.Problem
import StableNames.Text.Blank
import StableNames.Text.Lines

namespace StableNames

/-- What a policy sees: the method in question, and the names it may choose from. -/
structure Conflict where
  symbol : String
  candidates : List Candidate
deriving DecidableEq, Repr

namespace Conflict

def names (c : Conflict) : List String := c.candidates.map (·.name)

/-- The candidates as a list that is numbered from 1. -/
def text (c : Conflict) : String :=
  String.join <| c.candidates.mapIdx fun i candidate =>
    s!"{i + 1}) {candidate.name} <- " ++ ", ".intercalate candidate.origins ++ "\n"

/-- The place in the list of a choice that counts from 1, if there is such a candidate. -/
def place? (c : Conflict) (choice : Nat) : Option Nat :=
  if 1 ≤ choice ∧ choice ≤ c.candidates.length then some (choice - 1) else none

end Conflict

/-- What a policy decides: the place of a candidate or a refusal, what it remembers, and
what it reports. -/
structure Decision (μ : Type) where
  answer : Except Problem Nat
  memory : μ
  notices : List Notice := []

structure Policy (μ : Type) where
  decide : Conflict → μ → Decision μ

/-! ## The policies -/

/-- Refuses every conflict. -/
def Policy.fail : Policy Unit where
  decide conflict _ :=
    { answer := .error (.conflict conflict.symbol conflict.names), memory := () }

/-- The first of the choices that is in range, the choices after it, and a report on each
one before it. -/
def takeChoice (conflict : Conflict) : List Nat → Decision (List Nat)
  | [] => { answer := .error (.unresolved conflict.symbol), memory := [] }
  | choice :: rest =>
    match conflict.place? choice with
    | some place => { answer := .ok place, memory := rest }
    | none =>
      let later := takeChoice conflict rest
      let notice : Notice :=
        .warning s!"[CONFLICT] Ignoring out-of-range choice {choice} for {conflict.symbol}"
      { later with notices := notice :: later.notices }

/-- Takes the choices that were given beforehand, in order. -/
def Policy.script : Policy (List Nat) where
  decide := takeChoice

/-- A talk with someone who chooses: the lines still to come, and all that was shown. -/
structure Dialogue where
  lines : List (List Char)
  shown : String := ""
deriving DecidableEq, Repr

/-- The talk with someone who will say `text`. -/
def Dialogue.ofText (text : String) : Dialogue := { lines := Text.lines text.toList }

/-- Asks until a line is the number of a candidate. -/
def askChoice (conflict : Conflict) (shown : String) : List (List Char) → Decision Dialogue
  | [] =>
    { answer := .error (.unresolved conflict.symbol)
      memory := ⟨[], shown ++ s!"Choose [1-{conflict.candidates.length}]: "⟩ }
  | line :: rest =>
    let asked := shown ++ s!"Choose [1-{conflict.candidates.length}]: "
    let word := Text.trim line
    match Text.readNumeral Text.longLimit word with
    | .error _ =>
      askChoice conflict (asked ++ "'" ++ String.ofList word ++ "' is not a number\n") rest
    | .ok choice =>
      match conflict.place? choice with
      | some place => { answer := .ok place, memory := ⟨rest, asked ++ "OK!\n"⟩ }
      | none => askChoice conflict (asked ++ s!"{choice} is out of range\n") rest

/-- Shows the conflict and asks. -/
def Policy.prompt : Policy Dialogue where
  decide conflict talk :=
    askChoice conflict
      (talk.shown ++ s!"Conflict detected - matched same target name! {conflict.symbol}\n" ++
        conflict.text)
      talk.lines

end StableNames
