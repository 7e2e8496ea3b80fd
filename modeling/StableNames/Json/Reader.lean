-- Reading JSON: strict, without remarks, without commas at the end of a
-- list, and with nothing but blanks after the value. How deep values are
-- nested is not limited here.
import StableNames.Json.Basic
import StableNames.Text.Numeral
import StableNames.Unicode.Ranges

namespace StableNames.Json

/-- The text after its blanks. -/
def skipBlanks (text : List Char) : List Char :=
  text.dropWhile fun c => c = ' ' || c = '\t' || c = '\n' || c = '\r'

/-! ## Strings -/

/-- One unit of a string: a character, or one of the two halves of a pair. -/
inductive StringUnit where
  | char (c : Char)
  | high (n : Nat)
  | low (n : Nat)
deriving DecidableEq, Repr

/-- The unit of a number below 65536. -/
def StringUnit.ofNat (n : Nat) : StringUnit :=
  if 0xd800 ≤ n ∧ n < 0xdc00 then .high n
  else if 0xdc00 ≤ n ∧ n < 0xe000 then .low n
  else .char (Char.ofNat n)

/-- The characters of the units, if every half has its other half next to it. -/
def joinUnits? : List StringUnit → Option (List Char)
  | [] => some []
  | .char c :: rest => (joinUnits? rest).map (c :: ·)
  | .high a :: .low b :: rest =>
    (joinUnits? rest).map (Char.ofNat (0x10000 + 0x400 * (a - 0xd800) + (b - 0xdc00)) :: ·)
  | _ => none

/-- What a letter after a backslash stands for, if it takes no digits. -/
def shortEscape? : Char → Option Char
  | '"' => some '"'
  | '\\' => some '\\'
  | '/' => some '/'
  | 'b' => some '\x08'
  | 'f' => some '\x0c'
  | 'n' => some '\n'
  | 'r' => some '\r'
  | 't' => some '\t'
  | _ => none

/-- The units up to the closing quotation mark. -/
def readUnits? : List Char → Option (List StringUnit × List Char)
  | [] => none
  | '"' :: rest => some ([], rest)
  | '\\' :: 'u' :: a :: b :: c :: d :: rest => do
    guard ([a, b, c, d].all fun x => (Unicode.hexValue? x).isSome)
    let (units, rest) ← readUnits? rest
    return (.ofNat (Unicode.hexNumber [a, b, c, d]) :: units, rest)
  | '\\' :: e :: rest => do
    let c ← shortEscape? e
    let (units, rest) ← readUnits? rest
    return (.char c :: units, rest)
  | c :: rest => do
    guard (0x20 ≤ c.toNat ∧ c ≠ '\\')
    let (units, rest) ← readUnits? rest
    return (.char c :: units, rest)

/-- A string, after its opening quotation mark. -/
def readString? (text : List Char) : Option (Option String × List Char) :=
  (readUnits? text).map fun (units, rest) => ((joinUnits? units).map String.ofList, rest)

/-! ## Numbers -/

/-- The decimal digits at the start of a text, and what follows them. -/
def spanDigits (text : List Char) : List Char × List Char :=
  (text.takeWhile fun c => (Text.digit? c).isSome, text.dropWhile fun c => (Text.digit? c).isSome)

/-- The fraction at the start of a text, which may be missing. -/
def readFraction? (text : List Char) : Option (List Char × List Char) :=
  match text with
  | '.' :: rest =>
    let (ds, rest) := spanDigits rest
    if ds.isEmpty then none else some ('.' :: ds, rest)
  | _ => some ([], text)

/-- The exponent at the start of a text, which may be missing. -/
def readExponent? (text : List Char) : Option (List Char × List Char) :=
  match text with
  | c :: rest =>
    if c = 'e' ∨ c = 'E' then
      let (sign, rest) :=
        match rest with
        | '+' :: rest => (['+'], rest)
        | '-' :: rest => (['-'], rest)
        | _ => ([], rest)
      let (ds, rest) := spanDigits rest
      if ds.isEmpty then none else some (c :: sign ++ ds, rest)
    else some ([], text)
  | [] => some ([], [])

/-- The whole part of a number: no zero stands before another digit. -/
def readWhole? (text : List Char) : Option (List Char × List Char) :=
  let (ds, rest) := spanDigits text
  match ds with
  | [] => none
  | '0' :: _ :: _ => none
  | ds => some (ds, rest)

/-- A number, as it is written. -/
def readNumber? (text : List Char) : Option (List Char × List Char) := do
  let (sign, rest) :=
    match text with
    | '-' :: rest => (['-'], rest)
    | _ => ([], text)
  let (whole, rest) ← readWhole? rest
  let (fraction, rest) ← readFraction? rest
  let (exponent, rest) ← readExponent? rest
  return (sign ++ whole ++ fraction ++ exponent, rest)

/-! ## Values -/

/-- What is read: a value that may start with blanks, or the rest of an array or object
after its opening sign or after a comma. -/
inductive Goal where
  | value
  | items (first : Bool)
  | members (first : Bool)
deriving DecidableEq, Repr

/-- What was read. -/
inductive Part where
  | value (j : Json)
  | items (js : List Json)
  | members (ms : List (Option String × Json))

/-- Reads one part. Every part of a text takes at least one character, so the length of the
text bounds the nesting of the calls. -/
def readPart? : (fuel : Nat) → Goal → List Char → Option (Part × List Char)
  | 0, _, _ => none
  | fuel + 1, .value, text =>
    match skipBlanks text with
    | 'n' :: 'u' :: 'l' :: 'l' :: rest => some (.value .null, rest)
    | 't' :: 'r' :: 'u' :: 'e' :: rest => some (.value (.bool true), rest)
    | 'f' :: 'a' :: 'l' :: 's' :: 'e' :: rest => some (.value (.bool false), rest)
    | '"' :: rest => (readString? rest).map fun (s, rest) => (.value (.string s), rest)
    | '[' :: rest =>
      match readPart? fuel (.items true) rest with
      | some (.items js, rest) => some (.value (.array js), rest)
      | _ => none
    | '\x7b' :: rest =>
      match readPart? fuel (.members true) rest with
      | some (.members ms, rest) => some (.value (.object ms), rest)
      | _ => none
    | text => (readNumber? text).map fun (literal, rest) => (.value (.number literal), rest)
  | fuel + 1, .items first, text =>
    match first, skipBlanks text with
    | true, ']' :: rest => some (.items [], rest)
    | _, text =>
      match readPart? fuel .value text with
      | some (.value j, rest) =>
        match skipBlanks rest with
        | ']' :: rest => some (.items [j], rest)
        | ',' :: rest =>
          match readPart? fuel (.items false) rest with
          | some (.items js, rest) => some (.items (j :: js), rest)
          | _ => none
        | _ => none
      | _ => none
  | fuel + 1, .members first, text =>
    match first, skipBlanks text with
    | true, '\x7d' :: rest => some (.members [], rest)
    | _, '"' :: text =>
      match readString? text with
      | none => none
      | some (key, rest) =>
        match skipBlanks rest with
        | ':' :: rest =>
          match readPart? fuel .value rest with
          | some (.value j, rest) =>
            match skipBlanks rest with
            | '\x7d' :: rest => some (.members [(key, j)], rest)
            | ',' :: rest =>
              match readPart? fuel (.members false) rest with
              | some (.members ms, rest) => some (.members ((key, j) :: ms), rest)
              | _ => none
            | _ => none
          | _ => none
        | _ => none
    | _, _ => none

/-- The value of a text. -/
def read? (text : String) : Option Json :=
  match readPart? (2 * text.toList.length + 2) .value text.toList with
  | some (.value j, rest) => if (skipBlanks rest).isEmpty then some j else none
  | _ => none

end StableNames.Json
