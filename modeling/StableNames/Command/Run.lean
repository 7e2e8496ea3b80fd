-- Running a command on a tree of files. Nothing is written before all
-- names are settled, and then the output and the counter file change
-- together.
import StableNames.Command.Summary

namespace StableNames

/-- What a command finds when it starts. -/
structure Surroundings where
  files : FileTree
  input : String := ""
  defaultSettings? : Option String := none

/-- What is there after a command: its summary or its problem, what was shown to whoever
chooses, the files, and all reports. -/
structure Outcome where
  result : Except Problem String
  shown : String := ""
  files : FileTree
  log : List Notice := []

/-- Who decides conflicts. -/
inductive Judge where
  | nobody
  | script (choices : List Nat)
  | person

/-- A run that may not ask fails on conflicts, and choices given beforehand are taken before
anyone is asked. -/
def Command.judge (c : Command) (settings : Settings) : Judge :=
  if !settings.interactive then .nobody
  else if !c.options.choices.isEmpty then .script c.options.choices
  else .person

/-- The report on choices that nobody will look at. -/
def Command.unusedChoices (c : Command) (settings : Settings) : List Notice :=
  if !settings.interactive && !c.options.choices.isEmpty then
    [.warning "[CONFLICT] Ignoring --choice answers: interactive mode is off"]
  else []

/-- The session of a command, with its graphs and what was reported on them. -/
def Command.openSession (c : Command) (t : FileTree) (settings : Settings) :
    Except Problem Session := do
  let graph ← t.loadGraph c.graph
  let session := Session.start settings graph
  let session ←
    match c.task with
    | .generate =>
      pure <| session.report <| .info <|
        s!"[GEN] Loaded {graph.classCount} classes, {graph.methodCount} methods from {c.graph}"
    | .update oldGraph _ _ =>
      let old ← t.loadGraph oldGraph
      pure <| (session.setOldGraph old).report <| .info <|
        s!"[GEN] Updating {graph.classCount} classes from {old.classCount} previous classes"
    | .rederive _ => pure (session.setOldGraph graph)
  return (c.unusedChoices settings).foldl Session.report session

/-- The preparation that a task asks for. -/
def Command.prepare (c : Command) (t : FileTree) : Step Session Unit :=
  match c.task with
  | .generate => discard (Session.prepareRegenerate t c.output)
  | .update _ mappings matchesFile => Session.prepareUpdate t mappings matchesFile
  | .rederive mappings => Session.prepareRederive t mappings

/-- The names of a session with conflicts decided by a judge who may read `input`, and what
was shown to that judge. -/
def Session.generateFor (s : Session) (judge : Judge) (input : String) :
    Except Problem Generated × Session × String :=
  match judge with
  | .nobody =>
    let (result, s, _) := s.generate .fail ()
    (result, s, "")
  | .script choices =>
    let (result, s, _) := s.generate .script choices
    (result, s, "")
  | .person =>
    let (result, s, talk) := s.generate .prompt (.ofText input)
    (result, s, talk.shown)

/-- Runs a command. -/
def Command.run (c : Command) (w : Surroundings) : Outcome :=
  match c.options.settings w.files w.defaultSettings? with
  | .error problem => { result := .error problem, files := w.files }
  | .ok settings =>
    match c.openSession w.files settings with
    | .error problem => { result := .error problem, files := w.files }
    | .ok session =>
      match (c.prepare w.files).exec session with
      | (.error problem, session) =>
        { result := .error problem, files := w.files, log := session.naming.log }
      | (.ok (), session) =>
        match session.generateFor (c.judge settings) w.input with
        | (.error problem, session, shown) =>
          { result := .error problem, shown, files := w.files, log := session.naming.log }
        | (.ok generated, session, shown) =>
          match generated.commit w.files c.output settings.counterFile? with
          | (.error problem, files) =>
            { result := .error problem, shown, files, log := session.naming.log }
          | (.ok notice, files) =>
            { result := .ok (generated.summary c), shown, files,
              log := session.naming.log ++ [notice] }

end StableNames
