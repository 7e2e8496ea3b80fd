-- What a command leaves behind. Nothing is written before all names are
-- settled, and what is written then lands all at once, as far as a file
-- system without transactions allows: the counters land first, so that
-- they are never behind the names that were handed out.
import StableNames.Command.Run
import StableNames.Proofs.Files.Outcomes

namespace StableNames

variable {t t₁ : FileTree}

/-! ## What a commit leaves behind -/

namespace FileTree

end FileTree

/-! ## What a command writes -/

namespace Generated

/-- The files that a result is written to, in the order in which they land. -/
def files (r : Generated) (output : String) (counterFile? : Option String) :
    List (String × String) :=
  match counterFile? with
  | some path => [(path, r.counters.lines), (output, r.text)]
  | none => [(output, r.text)]

variable {r : Generated} {output : String} {counterFile? : Option String}

end Generated

namespace Command

/-- The counter file that the options or the settings of a command name. -/
def counterFile? (c : Command) (w : Surroundings) : Option String :=
  (c.options.settings w.files w.defaultSettings?).toOption.bind (·.counterFile?)

/-- The paths that a command writes to, in the order in which they land. -/
def targets (c : Command) (w : Surroundings) : List String :=
  (c.counterFile? w).toList ++ [c.output]

/-- What a command comes to before anything is written. -/
def generated (c : Command) (w : Surroundings) : Except Problem Generated := do
  let settings ← c.options.settings w.files w.defaultSettings?
  let session ← c.openSession w.files settings
  match (c.prepare w.files).exec session with
  | (.error problem, _) => throw problem
  | (.ok (), session) => (session.generateFor (c.judge settings) w.input).1

end Command

end StableNames
