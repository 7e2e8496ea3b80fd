-- What a pattern takes from the tables of characters: the properties that
-- it can name, what is a digit, a blank and part of a word, and what differs
-- only in case. The names that are carried here are those of the categories
-- and the scripts, and of a few more properties. Blanks, hyphens,
-- underscores and case in a name do not matter, and neither does `is` in
-- front of it.
import StableNames.Unicode.CaseFolding
import StableNames.Unicode.Letters
import StableNames.Unicode.Script

namespace StableNames.Pattern

open Unicode (GeneralCategory)

/-- A set of characters that has a name: one that is put together from the tables of the
categories, or any other by its ranges of code points. -/
inductive Property where
  | any
  | ascii
  | categories (gs : List GeneralCategory)
  | alphabetic
  | lowercase
  | uppercase
  | blank
  | joiner
  | word
  | listed (rs : List Unicode.Range)
deriving Repr

namespace Property

def mem : Property → Char → Bool
  | .any, _ => true
  | .ascii, c => c.toNat < 0x80
  | .categories gs, c => Unicode.ofCategories gs c
  | .alphabetic, c => Unicode.isAlphabetic c
  | .lowercase, c => Unicode.isLowercase c
  | .uppercase, c => Unicode.isUppercase c
  | .blank, c => Text.isBlank c
  | .joiner, c => Unicode.isJoiner c
  | .word, c => Unicode.isWordChar c
  | .listed rs, c => Unicode.inRanges rs c

/-! ## Names -/

/-- The groups of categories, by their names. -/
def groups : List (List String × List GeneralCategory) := [
  (["l", "letter"],
    [.uppercaseLetter, .lowercaseLetter, .titlecaseLetter, .modifierLetter, .otherLetter]),
  (["lc", "casedletter"], [.uppercaseLetter, .lowercaseLetter, .titlecaseLetter]),
  (["m", "mark", "combiningmark"], [.nonspacingMark, .spacingMark, .enclosingMark]),
  (["n", "number"], [.decimalNumber, .letterNumber, .otherNumber]),
  (["digit"], [.decimalNumber]),
  (["p", "punctuation", "punct"],
    [.connectorPunctuation, .dashPunctuation, .openPunctuation, .closePunctuation,
      .initialPunctuation, .finalPunctuation, .otherPunctuation]),
  (["s", "symbol"], [.mathSymbol, .currencySymbol, .modifierSymbol, .otherSymbol]),
  (["z", "separator"], [.spaceSeparator, .lineSeparator, .paragraphSeparator]),
  (["cntrl"], [.control]),
  (["c", "other"], [.control, .format, .surrogate, .privateUse, .unassigned])]

/-- All categories but that of unassigned code points. -/
def assigned : Property :=
  .categories ((GeneralCategory.all.map (·.1)).filter (· ≠ .unassigned))

/-- Properties with a yes or no for each character, by their names. -/
def flagNamed? (name : String) : Option Property :=
  if name ∈ ["alphabetic", "alpha"] then some .alphabetic
  else if name ∈ ["lowercase", "lower"] then some .lowercase
  else if name ∈ ["uppercase", "upper"] then some .uppercase
  else if name ∈ ["whitespace", "wspace", "space"] then some .blank
  else if name ∈ ["hexdigit", "hex"] then some (.listed Unicode.hexDigits)
  else if name ∈ ["joincontrol", "joinc"] then some .joiner
  else none

/-- Categories and their groups, by their names. -/
def categoryNamed? (name : String) : Option Property :=
  if name = "any" then some .any
  else if name = "ascii" then some .ascii
  else if name = "assigned" then some assigned
  else
    match groups.find? (name ∈ ·.1) with
    | some (_, gs) => some (.categories gs)
    | none =>
      (GeneralCategory.all.find? fun (_, short, long) => name = short || name = long).map
        fun (g, _) => .categories [g]

/-- Scripts, by their names. -/
def scriptNamed? (name : String) : Option Property :=
  (Unicode.scripts.find? fun s =>
    name = s.short || name = s.long || (name = "qaac" && s.short = "copt") ||
      (name = "qaai" && s.short = "zinh")).map (.listed ·.ranges)

/-- A name in the form in which names are compared. -/
def normalize (name : List Char) : String :=
  let stripped :=
    match name with
    | i :: s :: rest => if i.toLower = 'i' ∧ s.toLower = 's' then rest else name
    | _ => name
  let plain := (stripped.filter fun c => c ≠ ' ' && c ≠ '_' && c ≠ '-' && c.toNat < 0x80).map
    Char.toLower
  String.ofList (if stripped.length ≠ name.length ∧ plain = ['c'] then ['i', 's', 'c'] else plain)

/-- The property of a name that stands alone. -/
def ofName? (name : List Char) : Option Property :=
  let key := normalize name
  let flag := if key ∈ ["cf", "sc", "lc"] then none else flagNamed? key
  (flag.or (categoryNamed? key)).or (scriptNamed? key)

/-- The property of a name and a value. -/
def ofValue? (name value : List Char) : Option Property :=
  let key := normalize name
  if key ∈ ["gc", "generalcategory"] then categoryNamed? (normalize value)
  else if key ∈ ["sc", "script"] then scriptNamed? (normalize value)
  else none

end Property

/-! ## Case -/

/-- What is the same where case does not matter: a code point and those that differ from it
only in case. -/
structure Folding where
  variants : (n : Nat) → List Nat

instance : Repr Folding := ⟨fun _ _ => "folding"⟩

namespace Folding

/-- Only the basic letters have a case. -/
def ascii : Folding where
  variants n :=
    if 0x41 ≤ n ∧ n ≤ 0x5a then [n, n + 0x20]
    else if 0x61 ≤ n ∧ n ≤ 0x7a then [n, n - 0x20]
    else [n]

/-- All letters have their case. -/
def unicode : Folding := ⟨Unicode.caseVariants⟩

end Folding

/-! ## All that is known of characters -/

/-- The tables that a library reads and matches its patterns with: the properties that have a
name, or a name and a value, what is a digit, a blank and part of a word, what differs only in
case, and the characters that the name of a group may have. A closing parenthesis is not the name
of a property. -/
structure CharTable where
  named? : (name : List Char) → Option Property
  valued? : (name value : List Char) → Option Property
  digit : Property
  blank : Property
  word : Property
  folding : Folding
  isAlphabetic : Char → Bool
  isNumber : Char → Bool
  named?_parenthesis : named? [')'] = none

/-- The tables that are carried here. -/
def CharTable.carried : CharTable where
  named? := Property.ofName?
  valued? := Property.ofValue?
  digit := .categories [.decimalNumber]
  blank := .blank
  word := .word
  folding := .unicode
  isAlphabetic := Unicode.isAlphabetic
  isNumber := Unicode.isNumber
  named?_parenthesis := by decide

end StableNames.Pattern
