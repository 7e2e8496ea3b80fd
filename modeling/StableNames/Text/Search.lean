-- Places in a text: what it starts with, where a piece of it occurs,
-- and what stands before and after that place.

namespace StableNames.Text

/-- The text after `start`, if it starts with it. -/
def after? : (start text : List Char) → Option (List Char)
  | [], text => some text
  | _ :: _, [] => none
  | s :: start, c :: text => if s = c then after? start text else none

/-- The text before and after the first place where `piece` stands. -/
def splitFirst? (piece : List Char) : List Char → Option (List Char × List Char)
  | [] => if piece.isEmpty then some ([], []) else none
  | c :: text =>
    match after? piece (c :: text) with
    | some rest => some ([], rest)
    | none => (splitFirst? piece text).map fun (before, rest) => (c :: before, rest)

/-- Whether `piece` stands anywhere in the text. -/
def occursIn (piece text : List Char) : Bool :=
  (splitFirst? piece text).isSome

/-- The text after the last `mark`: all of it if there is none. -/
def afterLast (mark : Char) (text : List Char) : List Char :=
  (text.reverse.takeWhile (· != mark)).reverse

/-- The text up to the last `mark`, that mark included: nothing if there is none. -/
def uptoLast (mark : Char) (text : List Char) : List Char :=
  (text.reverse.dropWhile (· != mark)).reverse

theorem uptoLast_append_afterLast (mark : Char) (text : List Char) :
    uptoLast mark text ++ afterLast mark text = text := by
  simp [uptoLast, afterLast, ← List.reverse_append, List.takeWhile_append_dropWhile]

end StableNames.Text
