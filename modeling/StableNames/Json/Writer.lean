-- Writing JSON: on one line without blanks, or with one member to a line
-- and two more blanks for each level.
import StableNames.Json.Basic

namespace StableNames.Json

/-- A digit of a number in base 16. -/
def hexDigit (n : Nat) : Char :=
  if n < 10 then Char.ofNat (n + '0'.toNat) else Char.ofNat (n - 10 + 'a'.toNat)

/-- A character of a string as it is written. Only quotation marks, backslashes and control
characters are escaped. -/
def escapeChar (c : Char) : List Char :=
  if c = '"' then ['\\', '"']
  else if c = '\\' then ['\\', '\\']
  else if c = '\x08' then ['\\', 'b']
  else if c = '\x0c' then ['\\', 'f']
  else if c = '\n' then ['\\', 'n']
  else if c = '\r' then ['\\', 'r']
  else if c = '\t' then ['\\', 't']
  else if c.toNat < 0x20 then
    ['\\', 'u', '0', '0', hexDigit (c.toNat / 16), hexDigit (c.toNat % 16)]
  else [c]

/-- A string between its quotation marks. -/
def quote (s : String) : String :=
  "\"" ++ String.ofList (s.toList.flatMap escapeChar) ++ "\""

/-- A number. -/
def ofNat (n : Nat) : Json := .number (toString n).toList

def ofString (s : String) : Json := .string (some s)

/-- An object with these members. -/
def ofMembers (ms : List (String × Json)) : Json :=
  .object (ms.map fun (key, j) => (some key, j))

mutual

/-- A value on one line. -/
def compact : Json → String
  | .null => "null"
  | .bool b => if b then "true" else "false"
  | .number literal => String.ofList literal
  | .string value? => quote (value?.getD "")
  | .array items => "[" ++ ",".intercalate (compactItems items) ++ "]"
  | .object members => "\x7b" ++ ",".intercalate (compactMembers members) ++ "\x7d"

def compactItems : List Json → List String
  | [] => []
  | j :: rest => j.compact :: compactItems rest

def compactMembers : List (Option String × Json) → List String
  | [] => []
  | (key, j) :: rest => (quote (key.getD "") ++ ":" ++ j.compact) :: compactMembers rest

end

/-- Parts between two signs, each on a line of its own; nothing between the signs if there
are no parts. -/
def block (left right : String) (level : Nat) (parts : List String) : String :=
  let indent (n : Nat) := String.ofList (List.replicate (2 * n) ' ')
  if parts.isEmpty then left ++ right
  else
    left ++ "\n" ++ ",\n".intercalate (parts.map (indent (level + 1) ++ ·)) ++ "\n" ++
      indent level ++ right

mutual

/-- A value over several lines, with `level` levels around it. -/
def pretty (level : Nat) : Json → String
  | .array items => block "[" "]" level (prettyItems (level + 1) items)
  | .object members => block "\x7b" "\x7d" level (prettyMembers (level + 1) members)
  | j => j.compact

def prettyItems (level : Nat) : List Json → List String
  | [] => []
  | j :: rest => j.pretty level :: prettyItems level rest

def prettyMembers (level : Nat) : List (Option String × Json) → List String
  | [] => []
  | (key, j) :: rest => (quote (key.getD "") ++ ": " ++ j.pretty level) :: prettyMembers level rest

end

end StableNames.Json
