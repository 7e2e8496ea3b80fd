-- Escapes: what a backslash and the characters after it stand for. The
-- functions here take the text at the character after the backslash, and
-- give back what is left of it.
import StableNames.Pattern.Regex
import StableNames.Text.Search

namespace StableNames.Pattern

/-- The flags that change how a pattern is read. -/
structure Flags where
  caseless : Bool := false
  multiLine : Bool := false
  dotAll : Bool := false
  crlf : Bool := false
  spaced : Bool := false
  unicode : Bool := true
deriving DecidableEq, Repr, Inhabited

/-- The text after its blanks and remarks. A remark runs from a number sign to the end of
its line; `inRemark` tells that one is open. -/
def skipSpace (inRemark : Bool) : List Char → List Char
  | [] => []
  | c :: rest =>
    if inRemark then skipSpace (c != '\n') rest
    else if Text.isBlank c then skipSpace false rest
    else if c = '#' then skipSpace true rest
    else c :: rest

/-- The text from the next character that counts. -/
def Flags.skip (fl : Flags) (text : List Char) : List Char :=
  if fl.spaced then skipSpace false text else text

/-- What is read at one place of a pattern. -/
inductive Atom where
  | char (c : Char)
  | byte (n : Nat)
  | set (s : CharSet)
  | look (l : Look)
deriving Repr

/-! ## Code points by number -/

/-- The character of a code point. -/
def charOf? (n : Nat) : Option Char :=
  if h : n.isValidChar then some (Char.ofNatAux n h) else none

/-- The number in `count` hexadecimal digits. -/
def hexDigits? (fl : Flags) (value : Nat) : Nat → List Char → Option (Nat × List Char)
  | 0, text => some (value, text)
  | count + 1, c :: rest =>
    (Unicode.hexValue? c).bind fun d => hexDigits? fl (16 * value + d) count (fl.skip rest)
  | _ + 1, [] => none

/-- The number in the hexadecimal digits before a closing brace. -/
def hexBraces? (fl : Flags) (value? : Option Nat) :
    (fuel : Nat) → List Char → Option (Nat × List Char)
  | 0, _ => none
  | _, [] => none
  | fuel + 1, c :: rest =>
    if c = '\x7d' then value?.map fun value => (value, fl.skip rest)
    else
      (Unicode.hexValue? c).bind fun d =>
        hexBraces? fl (some (16 * value?.getD 0 + d)) fuel (fl.skip rest)

/-- A character by its number, after `x`, `u` or `U`. -/
def hexEscape? (fl : Flags) (letter : Char) (text : List Char) : Option (Atom × List Char) :=
  match fl.skip text with
  | '\x7b' :: rest => do
    let (n, rest) ← hexBraces? fl none (rest.length + 1) (fl.skip rest)
    return (.char (← charOf? n), rest)
  | digits => do
    let count := if letter = 'x' then 2 else if letter = 'u' then 4 else 8
    let (n, rest) ← hexDigits? fl 0 count digits
    let c ← charOf? n
    return (if letter = 'x' && 0x80 ≤ n then .byte n else .char c, rest)

/-! ## Properties -/

/-- The text before a closing brace. -/
def braceText? (fl : Flags) : (fuel : Nat) → List Char → Option (List Char × List Char)
  | 0, _ => none
  | _, [] => none
  | fuel + 1, c :: rest =>
    if c = '\x7d' then some ([], rest)
    else (braceText? fl fuel (fl.skip rest)).map fun (name, rest) => (c :: name, rest)

/-- The property that a text between braces names, and whether it is denied. -/
def propertyOf? (table : CharTable) (name : List Char) : Option (Property × Bool) :=
  match Text.splitFirst? ['!', '='] name with
  | some (key, value) => (table.valued? key value).map (·, true)
  | none =>
    match (Text.splitFirst? [':'] name).or (Text.splitFirst? ['='] name) with
    | some (key, value) => (table.valued? key value).map (·, false)
    | none => (table.named? name).map (·, false)

/-- The set of a named property, closed under case if case does not matter. -/
def Flags.propertySet (table : CharTable) (fl : Flags) (p : Property) (denied : Bool) : CharSet :=
  let s := if fl.caseless then .caseless table.folding (.property p) else .property p
  if denied then .compl s else s

/-- A property, after `p` or `P`. -/
def propertyEscape? (table : CharTable) (fl : Flags) (denied : Bool) (text : List Char) :
    Option (Atom × List Char) := do
  guard fl.unicode
  match fl.skip text with
  | '\x7b' :: rest =>
    let (name, rest) ← braceText? fl (rest.length + 1) (fl.skip rest)
    let (p, deniedAgain) ← propertyOf? table name
    return (.set (fl.propertySet table p (denied != deniedAgain)), rest)
  | '\\' :: _ => none
  | c :: rest =>
    let p ← table.named? [c]
    return (.set (fl.propertySet table p denied), fl.skip rest)
  | [] => none

/-! ## Boundaries of words -/

/-- The letters and hyphens of a name between braces. -/
def boundaryName (fl : Flags) : (fuel : Nat) → List Char → List Char × List Char
  | 0, text => ([], text)
  | _, [] => ([], [])
  | fuel + 1, c :: rest =>
    if c.isAlpha || c = '-' then
      let (name, rest) := boundaryName fl fuel (fl.skip rest)
      (c :: name, rest)
    else ([], c :: rest)

/-- A boundary, after `b`: with a name between braces it is one side of a word. Braces
that start otherwise are left to be read as a count. -/
def boundaryEscape? (table : CharTable) (fl : Flags) (text : List Char) :
    Option (Atom × List Char) :=
  let word := CharSet.words table fl.unicode
  match text with
  | '\x7b' :: rest =>
    match fl.skip rest with
    | [] => none
    | c :: inner =>
      if c.isAlpha || c = '-' then
        match boundaryName fl (inner.length + 1) (c :: inner) with
        | (name, '\x7d' :: rest) =>
          (List.lookup (String.ofList name) [
            ("start", Look.wordStart word),
            ("end", Look.wordEnd word),
            ("start-half", Look.wordStartHalf word),
            ("end-half", Look.wordEndHalf word)]).map fun l => (.look l, rest)
        | _ => none
      else some (.look (.wordBoundary word), text)
  | _ => some (.look (.wordBoundary word), text)

/-! ## All escapes -/

/-- The characters that stand for themselves after a backslash: all of ASCII but letters,
digits and angle brackets. -/
def isPlainEscape (c : Char) : Bool :=
  c.toNat < 0x80 && !c.isAlphanum && c != '<' && c != '>'

/-- What an escape stands for. -/
def escape? (table : CharTable) (fl : Flags) : List Char → Option (Atom × List Char)
  | [] => none
  | c :: rest =>
    if c = 'x' || c = 'u' || c = 'U' then hexEscape? fl c rest
    else if c = 'p' || c = 'P' then propertyEscape? table fl (c = 'P') rest
    else
      match CharSet.ofLetter? table fl.unicode c.toLower with
      | some s =>
        some (.set (if c.isUpper then .compl s else s), rest)
      | none =>
        if isPlainEscape c then some (.char c, rest)
        else
          match c with
          | 'a' => some (.char '\x07', rest)
          | 'f' => some (.char '\x0c', rest)
          | 't' => some (.char '\t', rest)
          | 'n' => some (.char '\n', rest)
          | 'r' => some (.char '\r', rest)
          | 'v' => some (.char '\x0b', rest)
          | 'A' => some (.look .textStart, rest)
          | 'z' => some (.look .textEnd, rest)
          | 'b' => boundaryEscape? table fl rest
          | 'B' => some (.look (.notWordBoundary (.words table fl.unicode)), rest)
          | '<' => some (.look (.wordStart (.words table fl.unicode)), rest)
          | '>' => some (.look (.wordEnd (.words table fl.unicode)), rest)
          | _ => none

end StableNames.Pattern
