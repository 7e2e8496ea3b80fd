-- Patterns, and the library that compiles them. All that is asked of it is
-- whether it accepts a text, and then whether the expression matches
-- anywhere in a name. The library that is built in reads a text with the
-- tables of characters that are carried here, and refuses an expression
-- that would grow too large.
import StableNames.Pattern.Parser

namespace StableNames

/-- A library of regular expressions: it refuses a text, or gives what tells of each name whether
the expression matches anywhere in it. -/
structure Pattern.Library where
  compile? : String → Option (String → Bool)

/-- A pattern as it was written, and the names that it matches in. -/
structure Pattern where
  source : String
  matchesIn : String → Bool

instance : Repr Pattern := ⟨fun p _ => repr p.source⟩

namespace Pattern

/-! ## The size of an expression

The machine that an expression stands for is not built here, and how large it would be is an
estimate: it only has to tell expressions that are out of all proportion from the others. -/

/-- The size of one state of the machine. -/
def stateSize : Nat := 32

/-- The most that a machine may take. -/
def sizeLimit : Nat := 10 * 1024 * 1024

/-- The number of bytes of a code point. -/
def byteCount (n : Nat) : Nat :=
  if n < 0x80 then 1 else if n < 0x800 then 2 else if n < 0x10000 then 3 else 4

/-- How many ranges of code points a property takes. Those of several categories are counted one
by one, also where they touch, and all code points once for each number of bytes. -/
def Property.ranges : Property → Nat
  | .any => 4
  | .ascii | .joiner => 1
  | .categories gs => gs.foldr (fun g n => g.ranges.length + 1 + n) 0
  | .alphabetic => 732
  | .lowercase => 671
  | .uppercase => 651
  | .word => 771
  | .blank => 10
  | .listed rs => rs.length

/-- How many states a set takes: one for each byte of a single range, and two for each range of a
property. What two sets share is counted twice. -/
def CharSet.states : CharSet → Nat
  | .empty => 1
  | .range lo hi => byteCount lo + if lo = hi then 0 else byteCount hi - 1
  | .property p => 2 * p.ranges
  | .union a b | .inter a b | .diff a b | .symmDiff a b => a.states + b.states
  | .compl a => a.states + 8
  | .caseless _ a => 2 * a.states

/-- The size of the machine that an expression stands for. Parts that match nothing but the
empty text are repeated at most once. -/
def Regex.size : Regex → Nat
  | .empty | .look _ => stateSize
  | .set s => stateSize * s.states
  | .seq a b => a.size + b.size
  | .alt a b => a.size + b.size + 2 * stateSize
  | .rep least most? a =>
    if a.isWidthless then a.size + stateSize
    else
      match most? with
      | none => (max least 1) * a.size + 2 * stateSize
      | some most => most * a.size + (most - least) * stateSize + stateSize

/-! ## Compiling -/

/-- The library that is built in. -/
def Library.builtIn : Library where
  compile? text := (parse? .carried text).bind fun r =>
    if r.size ≤ sizeLimit then some r.matchesIn else none

/-- A pattern that may match anywhere in a text. -/
def anywhere? (source : String) (library : Library := .builtIn) : Option Pattern :=
  (library.compile? source).map (⟨source, ·⟩)

/-- The text in a group between the start and the end. -/
def enclose (source : String) : String := "^(?:" ++ source ++ ")$"

/-- A pattern that has to match a whole text: it is put into a group between the start and
the end. -/
def whole? (source : String) (library : Library := .builtIn) : Option Pattern :=
  (library.compile? (enclose source)).map (⟨source, ·⟩)

end Pattern

end StableNames
