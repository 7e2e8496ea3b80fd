-- Sets of characters, as a pattern writes them.
import StableNames.Pattern.Property

namespace StableNames.Pattern

/-- An expression for a set of characters. -/
inductive CharSet where
  | empty
  | range (lo hi : Nat)
  | property (p : Property)
  | union (a b : CharSet)
  | inter (a b : CharSet)
  | diff (a b : CharSet)
  | symmDiff (a b : CharSet)
  | compl (a : CharSet)
  | caseless (f : Folding) (a : CharSet)
deriving Repr

namespace CharSet

/-- Whether a character is in the set. -/
def mem : CharSet → Char → Bool
  | .empty, _ => false
  | .range lo hi, c => lo ≤ c.toNat && c.toNat ≤ hi
  | .property p, c => p.mem c
  | .union a b, c => a.mem c || b.mem c
  | .inter a b, c => a.mem c && b.mem c
  | .diff a b, c => a.mem c && !b.mem c
  | .symmDiff a b, c => a.mem c != b.mem c
  | .compl a, c => !a.mem c
  | .caseless f a, c => (f.variants c.toNat).any fun n => a.mem (Char.ofNat n)

def single (c : Char) : CharSet := .range c.toNat c.toNat

def ofRanges (rs : List (Char × Char)) : CharSet :=
  rs.foldr (fun (lo, hi) s => .union (.range lo.toNat hi.toNat) s) .empty

/-- Whether the set holds one of the code points from 128 to 255, which stand for single
bytes where a pattern is about bytes. -/
def hasHighByte (s : CharSet) : Bool :=
  (List.range 128).any fun n => s.mem (Char.ofNat (n + 128))

/-! ## Sets with a letter or a name -/

/-- The characters of words. -/
def words (table : CharTable) (unicode : Bool) : CharSet :=
  if unicode then .property table.word
  else ofRanges [('0', '9'), ('A', 'Z'), ('_', '_'), ('a', 'z')]

/-- Digits, blanks and characters of words. -/
def ofLetter? (table : CharTable) (unicode : Bool) : Char → Option CharSet
  | 'd' => some <|
    if unicode then .property table.digit else ofRanges [('0', '9')]
  | 's' => some <|
    if unicode then .property table.blank else ofRanges [('\t', '\r'), (' ', ' ')]
  | 'w' => some (words table unicode)
  | _ => none

/-- The sets that stand between `[:` and `:]`. -/
def ofAsciiName? (name : String) : Option CharSet :=
  (List.lookup name [
    ("alnum", [('0', '9'), ('A', 'Z'), ('a', 'z')]),
    ("alpha", [('A', 'Z'), ('a', 'z')]),
    ("ascii", [('\x00', '\x7f')]),
    ("blank", [('\t', '\t'), (' ', ' ')]),
    ("cntrl", [('\x00', '\x1f'), ('\x7f', '\x7f')]),
    ("digit", [('0', '9')]),
    ("graph", [('!', '~')]),
    ("lower", [('a', 'z')]),
    ("print", [(' ', '~')]),
    ("punct", [('!', '/'), (':', '@'), ('[', '\x60'), ('\x7b', '~')]),
    ("space", [('\t', '\r'), (' ', ' ')]),
    ("upper", [('A', 'Z')]),
    ("word", [('0', '9'), ('A', 'Z'), ('_', '_'), ('a', 'z')]),
    ("xdigit", [('0', '9'), ('A', 'F'), ('a', 'f')])]).map ofRanges

end CharSet

end StableNames.Pattern
