-- Regular expressions: what they are made of, and where in a text they
-- match. A match is told by the place where it starts and the place where
-- it ends; which of several matches would be preferred plays no role.
import StableNames.Pattern.CharSet

namespace StableNames.Pattern

/-- A condition on the two characters around a place. What is part of a word is a set. -/
inductive Look where
  | textStart
  | textEnd
  | lineStart
  | lineEnd
  | lineStartCRLF
  | lineEndCRLF
  | wordBoundary (word : CharSet)
  | notWordBoundary (word : CharSet)
  | wordStart (word : CharSet)
  | wordEnd (word : CharSet)
  | wordStartHalf (word : CharSet)
  | wordEndHalf (word : CharSet)
deriving Repr

/-- Whether the condition holds between two characters, either of which may be missing. -/
def Look.holds : Look → (before after : Option Char) → Bool
  | .textStart, before, _ => before.isNone
  | .textEnd, _, after => after.isNone
  | .lineStart, before, _ => before.isNone || before == some '\n'
  | .lineEnd, _, after => after.isNone || after == some '\n'
  | .lineStartCRLF, before, after =>
    before.isNone || before == some '\n' || (before == some '\r' && after != some '\n')
  | .lineEndCRLF, before, after =>
    after.isNone || after == some '\r' || (after == some '\n' && before != some '\r')
  | .wordBoundary w, before, after => before.any w.mem != after.any w.mem
  | .notWordBoundary w, before, after => before.any w.mem == after.any w.mem
  | .wordStart w, before, after => !before.any w.mem && after.any w.mem
  | .wordEnd w, before, after => before.any w.mem && !after.any w.mem
  | .wordStartHalf w, before, _ => !before.any w.mem
  | .wordEndHalf w, _, after => !after.any w.mem

inductive Regex where
  | empty
  | set (s : CharSet)
  | look (l : Look)
  | seq (a b : Regex)
  | alt (a b : Regex)
  | rep (least : Nat) (most? : Option Nat) (a : Regex)
deriving Repr

namespace Regex

/-- Whether the expression can match nothing but the empty text. -/
def isWidthless : Regex → Bool
  | .empty | .look _ => true
  | .set _ => false
  | .seq a b | .alt a b => a.isWidthless && b.isWidthless
  | .rep _ most? a => a.isWidthless || most? == some 0

/-! ## Matching -/

/-- Whether the condition holds at a place. -/
def lookAt (text : Array Char) (l : Look) (i : Nat) : Bool :=
  l.holds (if i = 0 then none else text[i - 1]?) text[i]?

/-- The places of both lists, without those of the second that stand in the first. -/
def merge (a b : List Nat) : List Nat := a ++ b.filter (· ∉ a)

/-- `f` applied `n` times. -/
def iterate {α : Type} (f : α → α) : Nat → α → α
  | 0, x => x
  | n + 1, x => iterate f n (f x)

/-- The places that `n` rounds of `f` reach, those of earlier rounds included. The rounds
end early when one of them reaches nothing new. -/
def gather (f : List Nat → List Nat) : Nat → List Nat → List Nat
  | 0, places => places
  | n + 1, places =>
    let more := merge places (f places)
    if more.length = places.length then places else gather f n more

/-- The places where a match ends that starts at one of the given places. -/
def ends (text : Array Char) : Regex → List Nat → List Nat
  | .empty, places => places
  | .set s, places =>
    (places.filter fun i => text[i]?.any s.mem).map (· + 1)
  | .look l, places => places.filter (lookAt text l)
  | .seq a b, places => ends text b (ends text a places)
  | .alt a b, places => merge (ends text a places) (ends text b places)
  | .rep least most? a, places =>
    let start := iterate (ends text a) least places
    gather (ends text a) ((most?.map (· - least)).getD (text.size + 1)) start

/-- Whether the expression matches anywhere in a text. -/
def matchesIn (r : Regex) (text : String) : Bool :=
  let cs := text.toList.toArray
  !(r.ends cs (List.range (cs.size + 1))).isEmpty

end Regex

end StableNames.Pattern
