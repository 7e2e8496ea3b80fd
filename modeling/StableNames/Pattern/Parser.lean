-- Reading a pattern. The reader goes from left to right and keeps a stack
-- of the groups that are open; the flags of a group end with it. A text
-- that is no pattern has no expression.
import StableNames.Pattern.Brackets
import StableNames.Text.Numeral

namespace StableNames.Pattern

/-- An expression, and how deep it is nested. -/
structure Node where
  regex : Regex := .empty
  depth : Nat := 0
deriving Repr, Inhabited

/-- A part of a sequence. A change of flags is a part too, and cannot be repeated. -/
inductive Part where
  | flags
  | node (n : Node)
deriving Repr

def Part.toNode : Part → Node
  | .flags => {}
  | .node n => n

/-- What stands between two bars or group ends, last part first, and the alternatives
before it, last one first. -/
structure Branches where
  parts : List Part := []
  before : List Node := []
deriving Repr, Inhabited

namespace Branches

/-- The parts one after the other. -/
def sequence (b : Branches) : Node :=
  match b.parts with
  | [] => {}
  | [p] => p.toNode
  | p :: ps =>
    let whole := ps.foldl (fun n q => ⟨.seq q.toNode.regex n.regex, max q.toNode.depth n.depth⟩)
      p.toNode
    { whole with depth := whole.depth + 1 }

/-- The alternatives, the one that is being read included. -/
def close (b : Branches) : Node :=
  match b.before with
  | [] => b.sequence
  | ns =>
    let whole := ns.foldl (fun n m => ⟨.alt m.regex n.regex, max m.depth n.depth⟩) b.sequence
    { whole with depth := whole.depth + 1 }

def add (b : Branches) (p : Part) : Branches := { b with parts := p :: b.parts }

/-- Starts a new alternative. -/
def bar (b : Branches) : Branches := { before := b.sequence :: b.before }

end Branches

/-- A group that is open: what stands around it, and the flags that hold there. -/
structure Group where
  around : Branches
  flags : Flags
deriving Repr

/-- All that is known at one place of the pattern. -/
structure Reading where
  groups : List Group := []
  branches : Branches := {}
  flags : Flags := {}
  names : List (List Char) := []
deriving Repr, Inhabited

/-- The deepest nesting that is allowed. -/
def nestLimit : Nat := 250

namespace Reading

def add (r : Reading) (p : Part) : Reading := { r with branches := r.branches.add p }

/-- The last part with `f` applied to it, if it can be repeated. -/
def repeatLast? (r : Reading) (f : Regex → Regex) : Option Reading :=
  match r.branches.parts with
  | .node n :: parts =>
    let branches := { r.branches with parts := .node ⟨f n.regex, n.depth + 1⟩ :: parts }
    some { r with branches }
  | _ => none

/-! ## Counts -/

/-- The text after a question mark that makes a repetition lazy. -/
def afterLazy : List Char → List Char
  | '?' :: rest => rest
  | text => text

/-- The decimal digits at the start of a text, and what follows them. -/
def countDigits (fl : Flags) : (fuel : Nat) → List Char → List Char × List Char
  | fuel + 1, c :: rest =>
    if (Text.digit? c).isSome then
      let (ds, rest) := countDigits fl fuel (fl.skip rest)
      (c :: ds, rest)
    else ([], c :: rest)
  | _, text => ([], text)

/-- The number that a count gives, blanks around it left out; no number if there are no
digits. -/
def count? (fl : Flags) (text : List Char) : Option (Option Nat × List Char) :=
  let (ds, rest) := countDigits fl (text.length + 1) (text.dropWhile Text.isBlank)
  let rest := rest.dropWhile Text.isBlank
  if ds.isEmpty then some (none, fl.skip rest)
  else
    match Text.readNumeral Text.wordLimit ds with
    | .ok n => some (some n, fl.skip rest)
    | .error _ => none

/-- The bounds of a repetition, after its opening brace. -/
def bounds? (fl : Flags) (text : List Char) : Option ((Nat × Option Nat) × List Char) := do
  let (least?, rest) ← count? fl (fl.skip text)
  let least ← least?
  match rest with
  | '\x7d' :: rest => return ((least, some least), fl.skip rest)
  | ',' :: rest =>
    match fl.skip rest with
    | '\x7d' :: rest => return ((least, none), fl.skip rest)
    | rest =>
      let (most?, rest) ← count? fl rest
      let most ← most?
      guard (least ≤ most)
      match rest with
      | '\x7d' :: rest => return ((least, some most), fl.skip rest)
      | _ => none
  | _ => none

/-! ## Groups -/

/-- The flags after a change of one of them. -/
def setFlag? (fl : Flags) (letter : Char) (on : Bool) : Option Flags :=
  match letter with
  | 'i' => some { fl with caseless := on }
  | 'm' => some { fl with multiLine := on }
  | 's' => some { fl with dotAll := on }
  | 'R' => some { fl with crlf := on }
  | 'x' => some { fl with spaced := on }
  | 'u' => some { fl with unicode := on }
  | 'U' => some fl
  | _ => none

/-- The flags in a group head, up to the colon or parenthesis that ends them. No letter and
no hyphen stands twice, and the hyphen is not the last of them. -/
def groupFlags? (seen : List Char) (fl : Flags) (on : Bool) :
    List Char → Option (Flags × List Char × List Char)
  | [] => none
  | c :: rest =>
    if c = ':' ∨ c = ')' then
      if seen.head? = some '-' then none else some (fl, seen, c :: rest)
    else if c ∈ seen then none
    else if c = '-' then groupFlags? (c :: seen) fl false rest
    else (setFlag? fl c on).bind fun fl => groupFlags? (c :: seen) fl on rest

/-- Whether a character may stand in the name of a group, or be the first of it. -/
def isNameChar (table : CharTable) (first : Bool) (c : Char) : Bool :=
  c == '_' || table.isAlphabetic c ||
    (!first && (c == '.' || c == '[' || c == ']' || table.isNumber c))

/-- The name of a group, up to the closing angle bracket. -/
def groupName? (table : CharTable) (text : List Char) : Option (List Char × List Char) :=
  match text.takeWhile (· ≠ '>'), text.dropWhile (· ≠ '>') with
  | c :: name, _ :: rest =>
    if isNameChar table true c && name.all (isNameChar table false) then some (c :: name, rest)
    else none
  | _, _ => none

/-- Enters a group. -/
def enter (r : Reading) (inner : Flags) : Reading :=
  { r with groups := ⟨r.branches, r.flags⟩ :: r.groups, branches := {}, flags := inner }

/-- Enters a group with a name. -/
def enterNamed? (table : CharTable) (r : Reading) (text : List Char) :
    Option (Reading × List Char) := do
  let (name, rest) ← groupName? table text
  guard (name ∉ r.names)
  return ({ r.enter r.flags with names := name :: r.names }, rest)

/-- What an opening parenthesis does, after it was read. -/
def open? (table : CharTable) (r : Reading) (text : List Char) : Option (Reading × List Char) :=
  match r.flags.skip text with
  | '?' :: '=' :: _ | '?' :: '!' :: _ => none
  | '?' :: '<' :: '=' :: _ | '?' :: '<' :: '!' :: _ => none
  | '?' :: 'P' :: '<' :: rest => r.enterNamed? table rest
  | '?' :: '<' :: rest => r.enterNamed? table rest
  | '?' :: rest => do
    let (fl, seen, rest) ← groupFlags? [] r.flags true rest
    match rest with
    | ':' :: rest => return (r.enter fl, rest)
    | _ :: rest =>
      guard !seen.isEmpty
      return ({ r.add .flags with flags := fl }, rest)
    | [] => none
  | rest => some (r.enter r.flags, rest)

/-- What a closing parenthesis does. -/
def close? (r : Reading) : Option Reading :=
  match r.groups with
  | [] => none
  | g :: groups =>
    let inner := r.branches.close
    let branches := g.around.add (.node { inner with depth := inner.depth + 1 })
    some { r with groups, branches, flags := g.flags }

/-! ## Single characters -/

/-- The expression for one atom. -/
def atom? (table : CharTable) (fl : Flags) : Atom → Option Regex
  | .look l => some (.look l)
  | .set s => (fl.admit? s).map .set
  | .byte n =>
    if fl.unicode then (charOf? n).map (.set <| fl.foldCase table <| .single ·) else none
  | .char c => some (.set (fl.foldCase table (.single c)))

/-- Any character, or any but those that end a line. -/
def dot? (fl : Flags) : Option Regex :=
  if !fl.unicode then none
  else if fl.dotAll then some (.set (.property .any))
  else if fl.crlf then
    some (.set (.compl (.union (.single '\r') (.single '\n'))))
  else some (.set (.compl (.single '\n')))

/-- The start of the text, or of a line. -/
def startLook (fl : Flags) : Look :=
  if !fl.multiLine then .textStart else if fl.crlf then .lineStartCRLF else .lineStart

/-- The end of the text, or of a line. -/
def endLook (fl : Flags) : Look :=
  if !fl.multiLine then .textEnd else if fl.crlf then .lineEndCRLF else .lineEnd

/-- Adds an expression that has no parts. -/
def addLeaf (r : Reading) (x : Regex) : Reading := r.add (.node { regex := x })

/-! ## The whole pattern -/

/-- Reads what starts with `c`. -/
def step? (table : CharTable) (r : Reading) (c : Char) (rest : List Char) :
    Option (Reading × List Char) :=
  match c with
  | '(' => r.open? table rest
  | ')' => r.close?.map (·, rest)
  | '|' => some ({ r with branches := r.branches.bar }, rest)
  | '[' => do
    let (node, rest) ← r.flags.bracketSet? table rest
    return (r.add (.node ⟨.set (← r.flags.admit? node.set), node.depth⟩), rest)
  | '?' => (r.repeatLast? (.rep 0 (some 1))).map (·, afterLazy rest)
  | '*' => (r.repeatLast? (.rep 0 none)).map (·, afterLazy rest)
  | '+' => (r.repeatLast? (.rep 1 none)).map (·, afterLazy rest)
  | '\x7b' => do
    let ((least, most?), rest) ← bounds? r.flags rest
    return (← r.repeatLast? (.rep least most?), afterLazy rest)
  | '\\' => do
    let (a, rest) ← escape? table r.flags rest
    return (r.addLeaf (← atom? table r.flags a), rest)
  | '.' => (dot? r.flags).map fun x => (r.addLeaf x, rest)
  | '^' => some (r.addLeaf (.look (startLook r.flags)), rest)
  | '$' => some (r.addLeaf (.look (endLook r.flags)), rest)
  | c => (atom? table r.flags (.char c)).map fun x => (r.addLeaf x, rest)

/-- Reads to the end. -/
def run? (table : CharTable) (r : Reading) : (fuel : Nat) → List Char → Option Reading
  | 0, _ => none
  | fuel + 1, text =>
    match r.flags.skip text with
    | [] => some r
    | c :: rest => (r.step? table c rest).bind fun (r, rest) => r.run? table fuel rest

end Reading

/-- The expression of a pattern. -/
def parse? (table : CharTable) (pattern : String) : Option Regex := do
  let text := pattern.toList
  let r ← ({} : Reading).run? table (text.length + 1) text
  guard r.groups.isEmpty
  let node := r.branches.close
  guard (node.depth ≤ nestLimit)
  return node.regex

end StableNames.Pattern
