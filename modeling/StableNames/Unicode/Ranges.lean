-- Sets of code points, written as text: hexadecimal numbers and ranges of
-- them, parted by spaces and line ends.

namespace StableNames.Unicode

/-- The code points from `lo` to `hi`, both included. -/
structure Range where
  lo : Nat
  hi : Nat
deriving DecidableEq, Repr

def Range.mem (r : Range) (n : Nat) : Bool := r.lo ≤ n && n ≤ r.hi

/-- Whether a character stands in one of the ranges. -/
def inRanges (rs : List Range) (c : Char) : Bool := rs.any (·.mem c.toNat)

/-- The value of a hexadecimal digit. -/
def hexValue? (c : Char) : Option Nat :=
  if '0' ≤ c ∧ c ≤ '9' then some (c.toNat - '0'.toNat)
  else if 'a' ≤ c ∧ c ≤ 'f' then some (c.toNat - 'a'.toNat + 10)
  else if 'A' ≤ c ∧ c ≤ 'F' then some (c.toNat - 'A'.toNat + 10)
  else none

/-- The value of hexadecimal digits; other characters count as nothing. -/
def hexNumber (digits : List Char) : Nat :=
  (digits.filterMap hexValue?).foldl (fun n d => 16 * n + d) 0

/-- The range of one word. -/
def readRange (word : List Char) : Range :=
  match word.splitOn '-' with
  | [lo, hi] => ⟨hexNumber lo, hexNumber hi⟩
  | _ => ⟨hexNumber word, hexNumber word⟩

/-- The ranges of a text. -/
def readRanges (text : String) : List Range :=
  ((text.toList.splitOnP fun c => c = ' ' || c = '\n').filter (!·.isEmpty)).map readRange

end StableNames.Unicode
