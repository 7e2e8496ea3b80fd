-- What can go wrong. Each cause is a value of its own; its wording and
-- the exit code of the program are functions of the cause.
import StableNames.Symbol
import StableNames.Text.Numeral

namespace StableNames

/-- What is wrong with a counter line. -/
inductive CounterFault where
  | malformed (line : String)
  | unknownCategory (word : String)
  | invalidValue (value : String) (fault : Text.NumeralFault)
deriving DecidableEq, Repr

def CounterFault.message : CounterFault → String
  | .malformed line => s!"malformed counter line '{line}'"
  | .unknownCategory word => s!"unknown counter category '{word}'"
  | .invalidValue value fault => s!"invalid counter value '{value}': {fault.message}"

/-- What is wrong with a text that is read. -/
inductive FormatFault where
  | unknownVersion (header : String)
  | fewNamespaces
  | emptySnapshot
  | columns (kind : String) (needed found : Nat)
  | unknownRecord (kind : String)
  | counter (fault : CounterFault)
  | unknownNamespace (name : String) (available : List String)
  | classPair
  | memberBeforeClass
  | memberPair
  | malformedMember (line : String)
  | duplicateClass (name : String)
  | invalidGraph
deriving DecidableEq, Repr

def FormatFault.message : FormatFault → String
  | .unknownVersion header => s!"expected 'v1' header, found '{header}'"
  | .fewNamespaces => "header must name at least two namespaces"
  | .emptySnapshot => "empty mapping file"
  | .columns kind needed found =>
    s!"{kind} record needs {needed} non-empty columns, found {found}"
  | .unknownRecord kind => s!"unknown record kind '{kind}'"
  | .counter fault => fault.message
  | .unknownNamespace name available =>
    s!"namespace '{name}' not found (available: " ++ ", ".intercalate available ++ ")"
  | .classPair => "class match needs an old and a new class"
  | .memberBeforeClass => "member match before any class match"
  | .memberPair => "member match needs an old and a new member"
  | .malformedMember line => s!"malformed member match '{line}'"
  | .duplicateClass name => s!"duplicate class {name}"
  | .invalidGraph => "invalid class graph"

/-- Why the file system refuses an operation. -/
inductive FileFault where
  | missing
  | notADirectory
  | isADirectory
  | alreadyThere
  | notEmpty
  | insideItself
  | invalidPath
  | notText
deriving DecidableEq, Repr

def FileFault.message : FileFault → String
  | .missing => "no such file or directory"
  | .notADirectory => "not a directory"
  | .isADirectory => "is a directory"
  | .alreadyThere => "file exists"
  | .notEmpty => "directory not empty"
  | .insideItself => "a directory cannot move into itself"
  | .invalidPath => "invalid path"
  | .notText => "not valid UTF-8"

/-- Why a run stops. -/
inductive Problem where
  | fileNotFound (path : String)
  | file (fault : FileFault)
  | format (source : String) (line : Nat) (fault : FormatFault)
  | invalidPattern (pattern : String)
  | settings (path : String)
  | conflict (symbol : String) (candidates : List String)
  | unresolved (symbol : String)
  | reassigned (symbol : Symbol) (category : Category) (number : Nat) (requested : Category)
deriving DecidableEq, Repr

namespace Problem

def message : Problem → String
  | .fileNotFound path => s!"File not found: {path}"
  | .file fault => s!"IO error: {fault.message}"
  | .format source line fault => s!"{source}:{line}: {fault.message}"
  | .invalidPattern pattern => s!"Invalid pattern '{pattern}'"
  | .settings path => s!"Configuration error: Failed to parse {path}"
  | .conflict symbol candidates =>
    s!"Conflict detected for {symbol}: matched {candidates.length} different names (" ++
      ", ".intercalate candidates ++ ")"
  | .unresolved symbol => s!"Conflict for {symbol} left unresolved: no more input"
  | .reassigned symbol category number requested =>
    s!"Allocator invariant violated: {symbol.label} already named as " ++
      category.name number ++ s!", requested as {requested.word}"

/-- The exit code: 1 for files, 2 for malformed input, 3 for settings and
patterns, 4 for conflicts, 5 for a symbol asked for under two categories. -/
def exitCode : Problem → Nat
  | .fileNotFound _ | .file _ => 1
  | .format _ _ _ => 2
  | .invalidPattern _ | .settings _ => 3
  | .conflict _ _ | .unresolved _ => 4
  | .reassigned _ _ _ _ => 5

end Problem

/-! ## What succeeds -/

theorem ok_bind {ε α β : Type} (a : α) (f : α → Except ε β) : Except.ok a >>= f = f a := rfl

/-- Two computations in a row succeed only if the first one does. -/
theorem eq_ok_of_bind {ε α β : Type} {x : Except ε α} {f : α → Except ε β} {b : β}
    (h : x >>= f = .ok b) : ∃ a, x = .ok a ∧ f a = .ok b := by
  rcases x with _ | a
  · cases h
  · exact ⟨a, rfl, h⟩

theorem map_eq_ok {ε α β : Type} {x : Except ε α} {f : α → β} {b : β} :
    f <$> x = .ok b ↔ ∃ a, x = .ok a ∧ f a = b := by
  rcases x with _ | a
  · constructor
    · intro h
      cases h
    · rintro ⟨a, h, -⟩
      cases h
  · constructor
    · intro h
      exact ⟨a, rfl, Except.ok.inj h⟩
    · rintro ⟨a', h, rfl⟩
      obtain rfl := Except.ok.inj h
      rfl

theorem eq_ok_of_toOption {ε α : Type} {x : Except ε α} {a : α} (h : x.toOption = some a) :
    x = .ok a := by
  rcases x with _ | _
  · cases h
  · exact congrArg Except.ok (Option.some.inj h)

end StableNames
