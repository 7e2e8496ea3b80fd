-- Sets in brackets. Items side by side are joined; `&&`, `--` and `~~`
-- take what stands before them in the same brackets and what follows, from
-- left to right. Brackets may stand inside brackets.
import StableNames.Pattern.Escape

namespace StableNames.Pattern

/-- A set, and how deep its expression is nested. -/
structure SetNode where
  set : CharSet := .empty
  depth : Nat := 0
deriving Repr, Inhabited

/-- Items that are joined: their union, how many they are, and the depth of the deepest. -/
structure Items where
  set : CharSet := .empty
  count : Nat := 0
  depth : Nat := 0
deriving Repr, Inhabited

namespace Items

def add (is : Items) (s : CharSet) (depth : Nat) : Items :=
  { set := if is.count = 0 then s else .union is.set s
    count := is.count + 1
    depth := max is.depth depth }

/-- The items as one set; several of them make one more level. -/
def node (is : Items) : SetNode :=
  ⟨is.set, if is.count ≤ 1 then is.depth else is.depth + 1⟩

end Items

/-- The operators inside brackets. -/
inductive SetOp where
  | inter
  | diff
  | symmDiff
deriving DecidableEq, Repr

def SetOp.apply : SetOp → CharSet → CharSet → CharSet
  | .inter => .inter
  | .diff => .diff
  | .symmDiff => .symmDiff

/-- What waits while more is read: the items around an open bracket, or the left side of an
operator. -/
inductive SetFrame where
  | opened (around : Items) (negated : Bool)
  | operator (op : SetOp) (left : SetNode)
deriving Repr

namespace Flags

/-- The set closed under case, if case does not matter. -/
def foldCase (table : CharTable) (fl : Flags) (s : CharSet) : CharSet :=
  if fl.caseless then .caseless (if fl.unicode then table.folding else .ascii) s else s

def foldAndNegate (table : CharTable) (fl : Flags) (negated : Bool) (s : CharSet) : CharSet :=
  if negated then .compl (fl.foldCase table s) else fl.foldCase table s

/-- The set as part of a pattern. Where a pattern is about bytes, it must stay within ASCII. -/
def admit? (fl : Flags) (s : CharSet) : Option CharSet :=
  if fl.unicode then some s
  else if s.hasHighByte then none
  else some (.inter (.property .ascii) s)

/-- The sets that wait for a right side, applied to it. -/
def applyOperator (table : CharTable) (fl : Flags) (right : SetNode) :
    List SetFrame → SetNode × List SetFrame
  | .operator op left :: stack =>
    (⟨op.apply (fl.foldCase table left.set) (fl.foldCase table right.set),
      max left.depth right.depth + 1⟩, stack)
  | stack => (right, stack)

/-! ## Items -/

/-- The character of an atom that may stand in brackets. -/
def literal? (fl : Flags) : Atom → Option Char
  | .char c => if fl.unicode || c.toNat < 0x80 then some c else none
  | .byte n => if fl.unicode then charOf? n else none
  | _ => none

/-- The set of an atom in brackets. -/
def atomSet? (fl : Flags) (a : Atom) : Option CharSet :=
  match a with
  | .set s => some s
  | .look _ => none
  | a => (fl.literal? a).map CharSet.single

/-- One atom in brackets. -/
def setAtom? (table : CharTable) (fl : Flags) : List Char → Option (Atom × List Char)
  | [] => none
  | '\\' :: rest => escape? table fl rest
  | c :: rest => some (.char c, rest)

/-- A character, a set, or a range of characters. A hyphen makes a range unless a closing
bracket or another hyphen follows it. -/
def setRange? (table : CharTable) (fl : Flags) (text : List Char) :
    Option (CharSet × List Char) := do
  let (a, rest) ← fl.setAtom? table text
  match fl.skip rest with
  | [] => none
  | '-' :: more =>
    match fl.skip more with
    | [] => none
    | ']' :: _ | '-' :: _ => return (← fl.atomSet? a, '-' :: more)
    | next =>
      let (b, rest) ← fl.setAtom? table next
      let lo ← fl.literal? a
      let hi ← fl.literal? b
      guard (lo ≤ hi)
      return (.range lo.toNat hi.toNat, rest)
  | rest => return (← fl.atomSet? a, rest)

/-- A set with a name, from its opening bracket and colon on. What is no such name is left
to be read as brackets. -/
def namedSet? (table : CharTable) (fl : Flags) (text : List Char) :
    Option (CharSet × List Char) :=
  match text with
  | '[' :: ':' :: rest =>
    let (negated, rest) :=
      match rest with
      | '^' :: more => (true, more)
      | _ => (false, rest)
    match rest.dropWhile (· ≠ ':') with
    | ':' :: ']' :: more =>
      (CharSet.ofAsciiName? (String.ofList (rest.takeWhile (· ≠ ':')))).map fun s =>
        (fl.foldAndNegate table negated s, more)
    | _ => none
  | _ => none

/-! ## Brackets -/

/-- The hyphens at the start of brackets. -/
def leadingHyphens (fl : Flags) (is : Items) : (fuel : Nat) → List Char → Items × List Char
  | fuel + 1, '-' :: rest =>
    fl.leadingHyphens (is.add (.single '-') 0) fuel (fl.skip rest)
  | _, text => (is, text)

/-- What stands right after an opening bracket: a caret, and then hyphens or one closing
bracket that stand for themselves. -/
def openBracket (fl : Flags) (text : List Char) : Bool × Items × List Char :=
  let (negated, text) :=
    match fl.skip text with
    | '^' :: rest => (true, fl.skip rest)
    | text => (false, text)
  let (is, text) := fl.leadingHyphens {} text.length text
  match text with
  | ']' :: rest =>
    if is.count = 0 then (negated, is.add (.single ']') 0, fl.skip rest) else (negated, is, text)
  | _ => (negated, is, text)

/-- The rest of brackets, up to the one that closes the outermost. -/
def brackets? (table : CharTable) (fl : Flags) (stack : List SetFrame) (is : Items) :
    (fuel : Nat) → List Char → Option (SetNode × List Char)
  | 0, _ => none
  | fuel + 1, text =>
    let operator (op : SetOp) (rest : List Char) :=
      let (left, stack) := fl.applyOperator table is.node stack
      fl.brackets? table (.operator op left :: stack) {} fuel rest
    match fl.skip text with
    | [] => none
    | '[' :: rest =>
      match fl.namedSet? table ('[' :: rest) with
      | some (s, rest) => fl.brackets? table stack (is.add s 0) fuel rest
      | none =>
        let (negated, inner, rest) := fl.openBracket rest
        fl.brackets? table (.opened is negated :: stack) inner fuel rest
    | ']' :: rest =>
      let (whole, stack) := fl.applyOperator table is.node stack
      match stack with
      | [.opened _ negated] =>
        some (⟨fl.foldAndNegate table negated whole.set, whole.depth + 1⟩, rest)
      | .opened around negated :: stack =>
        let inner := fl.foldAndNegate table negated whole.set
        fl.brackets? table stack (around.add inner (whole.depth + 1)) fuel rest
      | _ => none
    | '&' :: '&' :: rest => operator .inter rest
    | '-' :: '-' :: rest => operator .diff rest
    | '~' :: '~' :: rest => operator .symmDiff rest
    | text =>
      match fl.setRange? table text with
      | none => none
      | some (s, rest) => fl.brackets? table stack (is.add s 0) fuel rest

/-- The set in brackets, after the opening one. -/
def bracketSet? (table : CharTable) (fl : Flags) (text : List Char) :
    Option (SetNode × List Char) :=
  let (negated, is, rest) := fl.openBracket text
  fl.brackets? table [.opened {} negated] is (rest.length + 1) rest

end Flags

end StableNames.Pattern
