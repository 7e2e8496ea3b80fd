-- Commands: what a run is asked to do, and the settings that its options
-- lead to. A settings file comes first and the options go on top of it.
import StableNames.Session.Prepare

namespace StableNames

/-- How the summary of a run is shown. -/
inductive SummaryFormat where
  | text
  | json
deriving DecidableEq, Repr, Inhabited

/-- The options that all tasks share. -/
structure Options where
  targetNamespace? : Option String := none
  obfuscationPatterns : List String := []
  includes : List String := []
  keepPackage : Bool := false
  onlyClassNames : Bool := false
  noFields : Bool := false
  noMethods : Bool := false
  nonInteractive : Bool := false
  choices : List Nat := []
  counterFile? : Option String := none
  settingsFile? : Option String := none
deriving DecidableEq, Repr, Inhabited

/-- What a run does: name a graph anew or again, carry the names of an earlier version
over, or derive the names of a snapshot anew. -/
inductive Task where
  | generate
  | update (oldGraph oldMappings matchesFile : String)
  | rederive (oldMappings : String)
deriving DecidableEq, Repr

structure Command where
  task : Task
  graph : String
  output : String
  options : Options := {}
  format : SummaryFormat := .text
  verbose : Bool := false
deriving DecidableEq, Repr

/-! ## Settings -/

namespace Options

/-- The settings file that is read: a file that is asked for has to be there. -/
def loadFile (o : Options) (t : FileTree) (defaultFile? : Option String) :
    Except Problem SettingsFile :=
  match o.settingsFile? with
  | some path => if t.has path then SettingsFile.load t path else .error (.fileNotFound path)
  | none =>
    match defaultFile? with
    | some path => SettingsFile.load t path
    | none => .ok {}

/-- Settings with the options on top of them. -/
def override (o : Options) (s : Settings) : Except Problem Settings := do
  let s := o.targetNamespace?.elim s s.setTargetNamespace
  let s ← s.setObfuscation o.obfuscationPatterns
  match s.addIncludes o.includes with
  | (some problem, _) => throw problem
  | (none, s) =>
    return { s with
      keepPackage := s.keepPackage || o.keepPackage
      mapFields := s.mapFields && !(o.onlyClassNames || o.noFields)
      mapMethods := s.mapMethods && !(o.onlyClassNames || o.noMethods)
      interactive := s.interactive && !o.nonInteractive
      counterFile? := o.counterFile?.or s.counterFile? }

/-- The settings that options lead to. -/
def settings (o : Options) (t : FileTree) (defaultFile? : Option String) :
    Except Problem Settings := do
  let file ← o.loadFile t defaultFile?
  match Settings.default.applyFile file with
  | (some problem, _) => throw problem
  | (none, s) => o.override s

end Options

end StableNames
