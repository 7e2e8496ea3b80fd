-- Lines of keys and values, in the notation of settings files. Of the
-- whole notation of TOML, the values that settings can have are read:
-- strings of all four kinds, truth values, and arrays of strings. A text
-- with anything else is refused.
import StableNames.Pattern.Escape

namespace StableNames.Toml

inductive Value where
  | text (s : String)
  | flag (b : Bool)
  | texts (ss : List String)
deriving DecidableEq, Repr

/-! ## Blanks -/

def isInlineBlank (c : Char) : Bool := c == ' ' || c == '\t'

/-- A character that may stand in remarks and strings. -/
def isPrintable (c : Char) : Bool :=
  c == '\t' || (0x20 ≤ c.toNat && c.toNat != 0x7f)

def skipInline (text : List Char) : List Char := text.dropWhile isInlineBlank

/-- The text after a line end. -/
def afterNewline? : List Char → Option (List Char)
  | '\n' :: rest => some rest
  | '\r' :: '\n' :: rest => some rest
  | _ => none

/-- The text after a remark, if there is one. -/
def skipRemark : List Char → List Char
  | '#' :: rest => rest.dropWhile isPrintable
  | text => text

/-- The text after blanks, remarks and line ends. -/
def skipLines : (fuel : Nat) → List Char → List Char
  | 0, text => text
  | fuel + 1, text =>
    let text := skipRemark (skipInline text)
    match afterNewline? text with
    | some rest => skipLines fuel rest
    | none => text

/-! ## Strings -/

/-- What an escape stands for, after its backslash. -/
def escape? : List Char → Option (Char × List Char)
  | 'b' :: rest => some ('\x08', rest)
  | 't' :: rest => some ('\t', rest)
  | 'n' :: rest => some ('\n', rest)
  | 'f' :: rest => some ('\x0c', rest)
  | 'r' :: rest => some ('\r', rest)
  | '"' :: rest => some ('"', rest)
  | '\\' :: rest => some ('\\', rest)
  | 'u' :: rest => number 4 rest
  | 'U' :: rest => number 8 rest
  | _ => none
where
  /-- The character whose number stands in `count` digits. -/
  number (count : Nat) (text : List Char) : Option (Char × List Char) := do
    let (n, rest) ← Pattern.hexDigits? {} 0 count text
    return (← Pattern.charOf? n, rest)

/-- The text after blanks and line ends. -/
def skipBreaks : (fuel : Nat) → List Char → List Char
  | 0, text => text
  | fuel + 1, text =>
    match afterNewline? (skipInline text) with
    | some rest => skipBreaks fuel rest
    | none => skipInline text

/-- The text after a backslash at a line end: all blanks and line ends are left out. -/
def skipContinuation? (text : List Char) : Option (List Char) :=
  (afterNewline? (skipInline text)).map fun rest => skipBreaks (rest.length + 1) rest

/-- The characters up to the quotation mark that ends a string on one line. -/
def lineString? (mark : Char) : (fuel : Nat) → List Char → Option (List Char × List Char)
  | 0, _ => none
  | _, [] => none
  | fuel + 1, c :: rest =>
    if c = mark then some ([], rest)
    else if c = '\\' ∧ mark = '"' then do
      let (e, rest) ← escape? rest
      let (cs, rest) ← lineString? mark fuel rest
      return (e :: cs, rest)
    else if isPrintable c then
      (lineString? mark fuel rest).map fun (cs, rest) => (c :: cs, rest)
    else none

/-- The characters up to the three quotation marks that end a string over several lines.
One or two more marks before them belong to the string. -/
def blockString? (mark : Char) : (fuel : Nat) → List Char → Option (List Char × List Char)
  | 0, _ => none
  | _, [] => none
  | fuel + 1, c :: rest =>
    let keep (c : Char) (rest : List Char) :=
      (blockString? mark fuel rest).map fun (cs, rest) => (c :: cs, rest)
    if c = mark then
      let run := (c :: rest).takeWhile (· = mark)
      if 3 ≤ run.length then
        let inside := min (run.length - 3) 2
        some (List.replicate inside mark, (c :: rest).drop (inside + 3))
      else keep c rest
    else if c = '\\' ∧ mark = '"' then
      match skipContinuation? rest with
      | some rest => blockString? mark fuel rest
      | none => (escape? rest).bind fun (e, rest) => keep e rest
    else
      match afterNewline? (c :: rest) with
      | some rest => keep '\n' rest
      | none => if isPrintable c then keep c rest else none

/-- A string of any kind. -/
def string? (text : List Char) : Option (String × List Char) :=
  let read (x : Option (List Char × List Char)) := x.map fun (cs, rest) => (String.ofList cs, rest)
  match text with
  | '"' :: '"' :: '"' :: rest =>
    read (blockString? '"' (rest.length + 1) ((afterNewline? rest).getD rest))
  | '\'' :: '\'' :: '\'' :: rest =>
    read (blockString? '\'' (rest.length + 1) ((afterNewline? rest).getD rest))
  | '"' :: rest => read (lineString? '"' (rest.length + 1) rest)
  | '\'' :: rest => read (lineString? '\'' (rest.length + 1) rest)
  | _ => none

/-! ## Values -/

/-- The strings of an array, after its opening bracket or a comma. -/
def strings? : (fuel : Nat) → List Char → Option (List String × List Char)
  | 0, _ => none
  | fuel + 1, text =>
    match skipLines (text.length + 1) text with
    | ']' :: rest => some ([], rest)
    | text => do
      let (s, rest) ← string? text
      match skipLines (rest.length + 1) rest with
      | ']' :: rest => return ([s], rest)
      | ',' :: rest =>
        let (ss, rest) ← strings? fuel rest
        return (s :: ss, rest)
      | _ => none

def value? (text : List Char) : Option (Value × List Char) :=
  match text with
  | 't' :: 'r' :: 'u' :: 'e' :: rest => some (.flag true, rest)
  | 'f' :: 'a' :: 'l' :: 's' :: 'e' :: rest => some (.flag false, rest)
  | '[' :: rest => (strings? (rest.length + 1) rest).map fun (ss, rest) => (.texts ss, rest)
  | _ => (string? text).map fun (s, rest) => (.text s, rest)

/-! ## Lines -/

def isBareKeyChar (c : Char) : Bool := c.isAlphanum || c == '_' || c == '-'

/-- A key, bare or between quotation marks. -/
def key? (text : List Char) : Option (String × List Char) :=
  match text with
  | '"' :: rest => (lineString? '"' (rest.length + 1) rest).map fun (cs, rest) =>
    (String.ofList cs, rest)
  | '\'' :: rest => (lineString? '\'' (rest.length + 1) rest).map fun (cs, rest) =>
    (String.ofList cs, rest)
  | _ =>
    let name := text.takeWhile isBareKeyChar
    if name.isEmpty then none else some (String.ofList name, text.dropWhile isBareKeyChar)

/-- A key and its value. -/
def entry? (text : List Char) : Option ((String × Value) × List Char) := do
  let (key, rest) ← key? text
  match skipInline rest with
  | '=' :: rest =>
    let (value, rest) ← value? (skipInline rest)
    return ((key, value), rest)
  | _ => none

/-- The entries of a text, one to a line. -/
def entries? : (fuel : Nat) → List Char → Option (List (String × Value))
  | 0, _ => none
  | fuel + 1, text =>
    match skipLines (text.length + 1) text with
    | [] => some []
    | text => do
      let (e, rest) ← entry? text
      match skipRemark (skipInline rest) with
      | [] => return [e]
      | rest => return e :: (← entries? fuel (← afterNewline? rest))

/-- The entries of a text, if no key stands twice. A byte order mark may stand first. -/
def read? (text : String) : Option (List (String × Value)) := do
  let cs :=
    match text.toList with
    | '\ufeff' :: rest => rest
    | cs => cs
  let es ← entries? (cs.length + 1) cs
  guard ((es.map (·.1)).eraseDups.length = es.length)
  return es

end StableNames.Toml
