-- Command lines: how arguments become a command. A value that follows its
-- switch, and a file name, is looked at when the next argument is taken or
-- the line ends. So an argument that nobody knows is reported before a bad
-- value right in front of it.
import StableNames.Command.Basic
import StableNames.Command.Switch
import StableNames.Text.Numeral

namespace StableNames

/-- Why arguments give no command: an inquiry that ends the reading, or a fault. -/
inductive Usage where
  | help
  | version
  | noArguments
  | noVerb
  | unknownVerb
  | unknownArgument
  | missingArgument
  | badValue
  | badNumber
  | repeated
  | unwantedValue
deriving DecidableEq, Repr

/-- An inquiry is no failure. -/
def Usage.exitCode : Usage → Nat
  | .help | .version => 0
  | _ => 2

/-! ## What is given -/

/-- What the arguments read so far give. -/
structure Given where
  format? : Option SummaryFormat := none
  verbose : Bool := false
  files : List String := []
  oldGraph? : Option String := none
  oldMappings? : Option String := none
  matchesFile? : Option String := none
  options : Options := {}
deriving DecidableEq, Repr

namespace Given

/-- A value that may be given once. -/
def once {α : Type} (before? : Option α) (value : Except Usage α) : Except Usage (Option α) :=
  if before?.isSome then .error .repeated else value.map some

/-- A flag that may be given once. -/
def flag (before : Bool) : Except Usage Bool :=
  if before then .error .repeated else .ok true

def readFormat : String → Except Usage SummaryFormat
  | "text" => .ok .text
  | "json" => .ok .json
  | _ => .error .badValue

/-- The name of a file may not be empty. -/
def readPath (text : String) : Except Usage String :=
  if text = "" then .error .badValue else .ok text

def readChoice (text : String) : Except Usage Nat :=
  (Text.readNumeral Text.longLimit text.toList).mapError fun _ => .badNumber

/-- One more file name. -/
def takeFile (g : Given) (text : String) : Except Usage Given := do
  return { g with files := g.files ++ [← readPath text] }

/-- A switch with its value. -/
def takeValue (g : Given) (s : Switch) (text : String) : Except Usage Given := do
  let o := g.options
  match s with
  | .format => return { g with format? := ← once g.format? (readFormat text) }
  | .oldGraph => return { g with oldGraph? := ← once g.oldGraph? (readPath text) }
  | .oldMappings => return { g with oldMappings? := ← once g.oldMappings? (readPath text) }
  | .matchesFile => return { g with matchesFile? := ← once g.matchesFile? (readPath text) }
  | .targetNamespace =>
    return { g with options.targetNamespace? := ← once o.targetNamespace? (.ok text) }
  | .obfuscationPattern =>
    return { g with options.obfuscationPatterns := o.obfuscationPatterns ++ [text] }
  | .onlyIncluded => return { g with options.includes := o.includes ++ [text] }
  | .choice => return { g with options.choices := o.choices ++ [← readChoice text] }
  | .counterFile =>
    return { g with options.counterFile? := ← once o.counterFile? (readPath text) }
  | .settingsFile =>
    return { g with options.settingsFile? := ← once o.settingsFile? (readPath text) }
  | _ => throw .unwantedValue

/-- A switch without a value. -/
def raise (g : Given) (s : Switch) : Except Usage Given := do
  let o := g.options
  match s with
  | .help => throw .help
  | .version => throw .version
  | .verbose => return { g with verbose := ← flag g.verbose }
  | .keepPackage => return { g with options.keepPackage := ← flag o.keepPackage }
  | .onlyClassNames => return { g with options.onlyClassNames := ← flag o.onlyClassNames }
  | .noFields => return { g with options.noFields := ← flag o.noFields }
  | .noMethods => return { g with options.noMethods := ← flag o.noMethods }
  | .nonInteractive => return { g with options.nonInteractive := ← flag o.nonInteractive }
  | _ => throw .badValue

end Given

/-! ## Reading from the left -/

/-- What is not looked at yet. -/
inductive Unread where
  | none
  /-- A switch whose value has not come. -/
  | switch (s : Switch)
  | value (s : Switch) (text : String)
  | file (text : String)
deriving DecidableEq, Repr

/-- A line of arguments, read up to some place. -/
structure Line where
  given : Given := {}
  unread : Unread := .none
  /-- How many file names there were. -/
  places : Nat := 0
  /-- Two dashes stood alone, so all that follows are file names. -/
  onlyFiles : Bool := false
deriving DecidableEq, Repr

namespace Line

/-- The line with nothing left unread. -/
def settle (l : Line) : Except Usage Line := do
  let given ←
    match l.unread with
    | .none => pure l.given
    | .switch _ => throw .badValue
    | .value s text => l.given.takeValue s text
    | .file text => l.given.takeFile text
  return { l with given, unread := .none }

/-- A switch that takes a value, which may be attached to it. -/
def expectValue (l : Line) (s : Switch) (attached? : Option String) : Except Usage Line := do
  let l ← l.settle
  match attached? with
  | some text => return { l with given := ← l.given.takeValue s text }
  | none => return { l with unread := .switch s }

def raise (l : Line) (s : Switch) : Except Usage Line := do
  let l ← l.settle
  return { l with given := ← l.given.raise s }

/-- A switch by its long name, and what stands after an equals sign. -/
def takeLong (verb? : Option Verb) (l : Line) (name : String) (attached? : Option String) :
    Except Usage Line :=
  match Switch.ofLong? verb? name with
  | none => .error .unknownArgument
  | some s =>
    if s.takesValue then l.expectValue s attached?
    else if attached?.isSome then .error .unwantedValue
    else l.raise s

/-- The value right after a letter. An equals sign may stand between them. -/
def attachedTo : List Char → Option String
  | [] => none
  | '=' :: rest => some (String.ofList rest)
  | rest => some (String.ofList rest)

/-- Switches by their letters. The first that takes a value takes all that follows. -/
def takeLetters (verb? : Option Verb) (l : Line) : List Char → Except Usage Line
  | [] => .ok l
  | c :: rest =>
    match Switch.ofShort? verb? c with
    | none => .error .unknownArgument
    | some s =>
      if s.takesValue then l.expectValue s (attachedTo rest)
      else do takeLetters verb? (← l.raise s) rest

/-- A verb, or the request for help on one. -/
def isVerb (arg : String) : Bool := arg = "help" || (Verb.ofWord? arg).isSome

/-- An argument without a dash. After a verb two of them are file names. -/
def takePlain (verb? : Option Verb) (l : Line) (arg : String) : Except Usage Line :=
  if verb?.isNone then
    .error (if l.onlyFiles && isVerb arg then .unknownArgument else .unknownVerb)
  else if l.places < 2 then do
    let l ← l.settle
    return { l with unread := .file arg, places := l.places + 1 }
  else .error .unknownArgument

/-- The name and the value of an argument after its two dashes. -/
def splitLong (rest : List Char) : String × Option String :=
  (String.ofList (rest.takeWhile (· ≠ '=')),
    match rest.dropWhile (· ≠ '=') with
    | [] => none
    | _ :: value => some (String.ofList value))

/-- Takes one more argument. A dash alone is no switch. -/
def take (verb? : Option Verb) (l : Line) (arg : String) : Except Usage Line :=
  if l.onlyFiles then l.takePlain verb? arg
  else
    match arg.toList with
    | ['-', '-'] => .ok { l with onlyFiles := true }
    | '-' :: '-' :: rest => l.takeLong verb? (splitLong rest).1 (splitLong rest).2
    | '-' :: c :: rest => l.takeLetters verb? (c :: rest)
    | _ =>
      match l.unread with
      | .switch s => .ok { l with unread := .value s arg }
      | _ => l.takePlain verb? arg

/-- Whether a verb may come next. A switch that waits for its value takes any word. -/
def mayTakeVerb (l : Line) : Bool :=
  !l.onlyFiles &&
    match l.unread with
    | .switch _ => false
    | _ => true

/-- The answer to a request for help on some words. Only one verb can be asked about. -/
def helpOn : List String → Usage
  | [] => .help
  | [arg] => if isVerb arg then .help else .unknownVerb
  | _ => .unknownVerb

/-- Reads up to the verb. -/
def takeVerb (l : Line) : List String → Except Usage (Line × Option (Verb × List String))
  | [] => .ok (l, none)
  | arg :: rest =>
    if l.mayTakeVerb && arg = "help" then .error (helpOn rest)
    else
      match if l.mayTakeVerb then Verb.ofWord? arg else none with
      | some verb => .ok (l, some (verb, rest))
      | none => do takeVerb (← l.take none arg) rest

end Line

/-! ## Commands -/

/-- What is given, with a counter file that is used where no other is named. -/
def Given.withCounterFile (g : Given) (path? : Option String) : Except Usage Given := do
  if g.options.counterFile?.isSome then return g
  return { g with options.counterFile? := ← path?.mapM readPath }

/-- What a task needs to know. -/
def Given.task? (g : Given) : Verb → Option Task
  | .generate => some .generate
  | .update => return .update (← g.oldGraph?) (← g.oldMappings?) (← g.matchesFile?)
  | .rederive => return .rederive (← g.oldMappings?)

/-- The command that arguments stand for. What stands after the verb wins over the same
switch before it. -/
def Command.ofArguments (args : List String) (counterFile? : Option String) :
    Except Usage Command := do
  match ← Line.takeVerb {} args with
  | (before, none) =>
    let before ← before.settle
    throw (if before.given = {} then .noArguments else .noVerb)
  | (before, some (verb, args)) =>
    let line ← (← args.foldlM (Line.take (some verb)) {}).settle
    let given ← line.given.withCounterFile counterFile?
    match given.task? verb, given.files with
    | some task, [graph, output] =>
      let before ← before.settle
      return {
        task
        graph
        output
        options := given.options
        format := (given.format?.or before.given.format?).getD .text
        verbose := given.verbose || before.given.verbose }
    | _, _ => throw .missingArgument

end StableNames
