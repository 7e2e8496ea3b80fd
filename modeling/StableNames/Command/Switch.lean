-- Switches: the words of a command line that begin with a dash, and the
-- tasks that they belong to.

namespace StableNames

/-- What a run can be asked to do. -/
inductive Verb where
  | generate
  | update
  | rederive
deriving DecidableEq, Repr

/-- The verb that a word stands for. Two of them have a short form. -/
def Verb.ofWord? : String → Option Verb
  | "generate" | "g" => some .generate
  | "update" | "u" => some .update
  | "rewrite" => some .rederive
  | _ => none

inductive Switch where
  | help
  | version
  | format
  | verbose
  | targetNamespace
  | obfuscationPattern
  | onlyIncluded
  | keepPackage
  | onlyClassNames
  | noFields
  | noMethods
  | nonInteractive
  | choice
  | counterFile
  | settingsFile
  | oldGraph
  | oldMappings
  | matchesFile
deriving DecidableEq, Repr

namespace Switch

def all : List Switch :=
  [.help, .version, .format, .verbose, .targetNamespace, .obfuscationPattern, .onlyIncluded,
    .keepPackage, .onlyClassNames, .noFields, .noMethods, .nonInteractive, .choice,
    .counterFile, .settingsFile, .oldGraph, .oldMappings, .matchesFile]

/-- The name after two dashes. -/
def long : Switch → String
  | .help => "help"
  | .version => "version"
  | .format => "format"
  | .verbose => "verbose"
  | .targetNamespace => "target-namespace"
  | .obfuscationPattern => "obfuscation-pattern"
  | .onlyIncluded => "include"
  | .keepPackage => "keep-package"
  | .onlyClassNames => "only-class-names"
  | .noFields => "no-fields"
  | .noMethods => "no-methods"
  | .nonInteractive => "non-interactive"
  | .choice => "choice"
  | .counterFile => "counter-file"
  | .settingsFile => "config"
  | .oldGraph => "old-graph"
  | .oldMappings => "old-mappings"
  | .matchesFile => "matches"

/-- The letter after one dash. -/
def short? : Switch → Option Char
  | .help => some 'h'
  | .version => some 'V'
  | .format => some 'f'
  | .verbose => some 'v'
  | .targetNamespace => some 't'
  | .obfuscationPattern => some 'p'
  | .onlyIncluded => some 'i'
  | _ => none

/-- Whether a value follows. The other switches are flags. -/
def takesValue : Switch → Bool
  | .format | .targetNamespace | .obfuscationPattern | .onlyIncluded | .choice
  | .counterFile | .settingsFile | .oldGraph | .oldMappings | .matchesFile => true
  | _ => false

/-- Whether a switch may stand after a verb, or before all verbs. -/
def isFor : Option Verb → Switch → Bool
  | _, .help | _, .version | _, .format | _, .verbose => true
  | none, _ => false
  | some verb, .oldGraph | some verb, .matchesFile => verb = .update
  | some verb, .oldMappings => verb ≠ .generate
  | some _, _ => true

/-- The switch with a long name. -/
def ofLong? (verb? : Option Verb) (name : String) : Option Switch :=
  all.find? fun s => s.isFor verb? && s.long = name

/-- The switch with a letter. -/
def ofShort? (verb? : Option Verb) (c : Char) : Option Switch :=
  all.find? fun s => s.isFor verb? && s.short? = some c

end Switch

end StableNames
