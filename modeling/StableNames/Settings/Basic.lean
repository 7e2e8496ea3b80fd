-- The settings of a run: which classes are scrambled and which are
-- written, where new names go, and which members get names. Patterns are
-- compiled by a library, the one that is built in unless another is given.
import StableNames.Pattern.Basic
import StableNames.Settings.File

namespace StableNames

structure Settings where
  targetNamespace : String := "net/minecraft/"
  obfuscated : List Pattern
  includes : List Pattern := []
  keepPackage : Bool := false
  mapFields : Bool := true
  mapMethods : Bool := true
  interactive : Bool := true
  counterFile? : Option String := none
deriving Repr

namespace Settings

open Pattern (Library)

/-- The default pattern: a class without a package is scrambled. -/
def defaultObfuscation : String := "^[^/]*$"

/-- The settings before anything is set. -/
def default : Settings := { obfuscated := (Pattern.whole? defaultObfuscation).toList }

instance : Inhabited Settings := ⟨default⟩

/-- The settings with another package for new names; a slash is added at its end. -/
def setTargetNamespace (s : Settings) (name : String) : Settings :=
  { s with targetNamespace := if name.toList.getLast? = some '/' then name else name ++ "/" }

/-- The patterns of a list, or the problem with the first that is none. -/
def compileAll (sources : List String) (library : Library := .builtIn) :
    Except Problem (List Pattern) :=
  sources.mapM fun source =>
    match Pattern.whole? source library with
    | some p => .ok p
    | none => .error (.invalidPattern source)

/-- The settings with other patterns for scrambled names. No patterns change nothing. -/
def setObfuscation (s : Settings) (sources : List String) (library : Library := .builtIn) :
    Except Problem Settings :=
  if sources.isEmpty then .ok s
  else (compileAll sources library).map fun ps => { s with obfuscated := ps }

/-- The settings with one more pattern for classes that are written. -/
def addInclude (s : Settings) (source : String) (library : Library := .builtIn) :
    Except Problem Settings :=
  match Pattern.anywhere? source library with
  | some p => .ok { s with includes := s.includes ++ [p] }
  | none => .error (.invalidPattern source)

/-- The settings with more patterns for classes that are written, up to the first that is none. -/
def addIncludes (s : Settings) (sources : List String) (library : Library := .builtIn) :
    Option Problem × Settings :=
  match sources with
  | [] => (none, s)
  | source :: rest =>
    match s.addInclude source library with
    | .ok s => s.addIncludes rest library
    | .error problem => (some problem, s)

/-- Whether a class is scrambled: one of the patterns matches its whole name. -/
def isObfuscated (s : Settings) (name : String) : Bool :=
  s.obfuscated.any (·.matchesIn name)

/-- Whether a class is written: one of the patterns matches in its name, or there are none. -/
def isIncluded (s : Settings) (name : String) : Bool :=
  s.includes.isEmpty || s.includes.any (·.matchesIn name)

/-- The settings with what a file sets, and the problem that ended this early. What was set
before the problem stays set. -/
def applyFile (s : Settings) (f : SettingsFile) (library : Library := .builtIn) :
    Option Problem × Settings :=
  let s := f.targetNamespace?.elim s s.setTargetNamespace
  match s.setObfuscation f.obfuscationPatterns library with
  | .error problem => (some problem, s)
  | .ok s =>
    match s.addIncludes f.includes library with
    | (some problem, s) => (some problem, s)
    | (none, s) =>
      (none, { s with
        keepPackage := f.keepPackage?.getD s.keepPackage
        mapFields := f.mapFields?.getD s.mapFields
        mapMethods := f.mapMethods?.getD s.mapMethods
        interactive := f.interactive?.getD s.interactive
        counterFile? := f.counterFile?.or s.counterFile? })

end Settings

end StableNames
