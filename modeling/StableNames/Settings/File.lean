-- Settings files. Every key may be missing; keys with another name, and
-- values of another kind, are refused.
import StableNames.Files.Tree
import StableNames.Settings.Toml

namespace StableNames

/-- What a settings file sets. -/
structure SettingsFile where
  targetNamespace? : Option String := none
  obfuscationPatterns : List String := []
  includes : List String := []
  keepPackage? : Option Bool := none
  mapFields? : Option Bool := none
  mapMethods? : Option Bool := none
  interactive? : Option Bool := none
  counterFile? : Option String := none
deriving DecidableEq, Repr, Inhabited

namespace SettingsFile

/-- The settings with one more entry. -/
def set? (f : SettingsFile) (key : String) (value : Toml.Value) : Option SettingsFile :=
  match value with
  | .text s =>
    if key = "target_namespace" then some { f with targetNamespace? := some s }
    else if key = "counter_file" then some { f with counterFile? := some s }
    else none
  | .flag b =>
    if key = "keep_package" then some { f with keepPackage? := some b }
    else if key = "map_fields" then some { f with mapFields? := some b }
    else if key = "map_methods" then some { f with mapMethods? := some b }
    else if key = "interactive" then some { f with interactive? := some b }
    else none
  | .texts ss =>
    if key = "obfuscation_patterns" then some { f with obfuscationPatterns := ss }
    else if key = "includes" then some { f with includes := ss }
    else none

/-- The settings in a text. -/
def read? (text : String) : Option SettingsFile := do
  (← Toml.read? text).foldlM (fun f (key, value) => f.set? key value) {}

/-- The settings in a file: none are set if it is missing. -/
def load (t : FileTree) (path : String) : Except Problem SettingsFile :=
  if !t.has path then .ok {}
  else
    match t.readText path with
    | .error fault => .error (.file fault)
    | .ok text =>
      match read? text with
      | some f => .ok f
      | none => .error (.settings path)

end SettingsFile

end StableNames
