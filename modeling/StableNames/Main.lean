-- The program. It loads the files that a command names into a tree, runs
-- the command on the tree, and brings the disk to the state of the tree
-- that comes out. All decisions are made by the command.
import StableNames.Command.Line
import StableNames.Command.Run

namespace StableNames.Program

def usageText : String :=
  "Stable intermediary names for obfuscated class graphs\n" ++
  "\n" ++
  "Usage: intermediary generate [OPTIONS] <GRAPH> <OUTPUT>\n" ++
  "       intermediary update --old-graph <FILE> --old-mappings <FILE> --matches <FILE>\n" ++
  "                           [OPTIONS] <NEW_GRAPH> <OUTPUT>\n" ++
  "       intermediary rewrite --old-mappings <FILE> [OPTIONS] <GRAPH> <OUTPUT>\n" ++
  "\n" ++
  "Options:\n" ++
  "  -f, --format <text|json>           Format of the summary\n" ++
  "  -v, --verbose                      Show more in the summary\n" ++
  "  -t, --target-namespace <PACKAGE>   Package that new class names are placed in\n" ++
  "  -p, --obfuscation-pattern <REGEX>  Names of classes that are renamed (repeatable)\n" ++
  "  -i, --include <REGEX>              Classes that are written (repeatable)\n" ++
  "      --keep-package                 Keep the package of renamed classes\n" ++
  "      --only-class-names             Write class records only\n" ++
  "      --no-fields                    Write no field records\n" ++
  "      --no-methods                   Write no method records\n" ++
  "      --non-interactive              Fail on the first conflict instead of asking\n" ++
  "      --choice <N>                   Answer to a conflict, in order (repeatable)\n" ++
  "      --counter-file <FILE>          File of the counters\n" ++
  "      --config <FILE>                Settings file\n" ++
  "  -h, --help                         Print help\n" ++
  "  -V, --version                      Print the version\n"

def versionText : String := "intermediary 0.3.0\n"

/-- What is wrong with the arguments, in words. -/
def complaint : Usage → String
  | .help | .version | .noArguments => ""
  | .noVerb => "error: no subcommand was given\n\n"
  | .unknownVerb => "error: unrecognized subcommand\n\n"
  | .unknownArgument => "error: unexpected argument\n\n"
  | .missingArgument => "error: a required argument was not given\n\n"
  | .badValue => "error: a value is missing or is not among the possible ones\n\n"
  | .badNumber => "error: a value is no number\n\n"
  | .repeated => "error: an argument was given more than once\n\n"
  | .unwantedValue => "error: a flag was given a value\n\n"

/-! ## From the disk to a tree -/

/-- The places that segments lead through from a place, that one included. -/
def placesAlong : Location → List String → List Location
  | l, [] => [l]
  | l, s :: rest =>
    if s = "." then placesAlong l rest
    else if s = ".." then l :: placesAlong l.dropLast rest
    else l :: placesAlong (l ++ [s]) rest

/-- The path of a place. -/
def pathOf (l : Location) : String := "/" ++ "/".intercalate l

/-- The tree with what the disk holds at a place. -/
def loadPlace (t : FileTree) (l : Location) : IO FileTree := do
  if (t.node? l).isSome then return t
  try
    let path ← IO.FS.realPath (pathOf l)
    if ← path.isDir then return t.put l .directory
    else return t.put l (.file (← IO.FS.readBinFile path))
  catch _ => return t

/-- The tree with what the disk holds at some paths and on the way to them. -/
def loadPaths (t : FileTree) (paths : List String) : IO FileTree :=
  (paths.flatMap fun path =>
    placesAlong (if Path.isAbsolute path then [] else t.here) (FileTree.steps path)).foldlM
      loadPlace t

/-- The files that a task reads. -/
def taskPaths : Task → List String
  | .generate => []
  | .update oldGraph oldMappings matchesFile => [oldGraph, oldMappings, matchesFile]
  | .rederive oldMappings => [oldMappings]

/-- A file that is written, and the one next to it that is written first. -/
def writtenPaths (path : String) : List String := [path, Path.temporary path]

/-- The tree of all files that a command may read or write. The settings name one of them. -/
def loadTree (c : Command) (here : Location) (defaultSettings? : Option String) :
    IO FileTree := do
  let t ← loadPaths { here } <|
    "." :: c.graph :: taskPaths c.task ++ writtenPaths c.output ++
      c.options.settingsFile?.toList ++ defaultSettings?.toList
  match c.options.settings t defaultSettings? with
  | .error _ => return t
  | .ok settings => loadPaths t (settings.counterFile?.toList.flatMap writtenPaths)

/-! ## From a tree to the disk -/

/-- Brings the disk from the state of one tree to that of another. -/
def storeTree (before after : FileTree) : IO Unit := do
  for (l, node) in after.nodes.entries do
    if before.nodes.get? l != some node then
      match node with
      | .directory => IO.FS.createDirAll (pathOf l)
      | .file content => IO.FS.writeBinFile (pathOf l) content
  for (l, _) in before.nodes.entries do
    if (after.nodes.get? l).isNone then IO.FS.removeFile (pathOf l)

/-! ## Running -/

/-- The directory of the user's settings, if there is one. -/
def settingsDirectory : IO (Option String) := do
  if let some path ← IO.getEnv "XDG_CONFIG_HOME" then
    if Path.isAbsolute path then return some path
  match ← IO.getEnv "HOME" with
  | some home => return if home = "" then none else some (Path.join home ".config")
  | none => return none

/-- Runs a command. As long as it ends in an open question, one more line is read and it
runs again; what was shown before is not shown again. -/
partial def converse (c : Command) (w : Surroundings) (shown : Nat) : IO Outcome := do
  let outcome := c.run w
  (← IO.getStderr).putStr (outcome.shown.drop shown).toString
  match outcome.result with
  | .error (.unresolved _) =>
    if outcome.shown = "" then return outcome
    let line ← (← IO.getStdin).getLine
    if line = "" then return outcome
    converse c { w with input := w.input ++ line } outcome.shown.length
  | _ => return outcome

def printNotice (notice : Notice) : IO Unit :=
  match notice.level with
  | .info => IO.eprintln s!"INFO {notice.text}"
  | .warning => IO.eprintln s!"WARN {notice.text}"

def runCommand (c : Command) : IO UInt32 := do
  let here := (Path.segments (← IO.FS.realPath ".").toString).filter (· ≠ "")
  let defaultSettings? := (← settingsDirectory).map (Path.join · "intermediary/config.toml")
  let files ← loadTree c here defaultSettings?
  let outcome ← converse c { files, defaultSettings? } 0
  storeTree files outcome.files
  outcome.log.forM printNotice
  match outcome.result with
  | .ok summary =>
    IO.print summary
    return 0
  | .error problem =>
    IO.eprintln s!"Error: {problem.message}"
    return problem.exitCode.toUInt32

def answerUsage (u : Usage) : IO UInt32 := do
  match u with
  | .help => IO.print usageText
  | .version => IO.print versionText
  | _ => IO.eprint (complaint u ++ usageText)
  return u.exitCode.toUInt32

def run (args : List String) : IO UInt32 := do
  match Command.ofArguments args (← IO.getEnv "INTERMEDIARY_COUNTER_FILE") with
  | .ok command => runCommand command
  | .error usage => answerUsage usage

end StableNames.Program

def main (args : List String) : IO UInt32 := StableNames.Program.run args
