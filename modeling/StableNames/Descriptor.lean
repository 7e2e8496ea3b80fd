-- Descriptors of fields and methods. A class stands in a descriptor
-- between the letter L and the next semicolon; all else stays as it is. A
-- renaming of classes goes through the pieces of the descriptor.
import StableNames.Text.Search

namespace StableNames.Descriptor

/-- A piece of a descriptor. -/
inductive Piece where
  | plain (c : Char)
  | ref (name : List Char)
deriving DecidableEq, Repr

/-- The pieces of a descriptor. An L without a semicolon after it names no class. -/
def pieces : List Char → List Piece
  | [] => []
  | c :: rest =>
    if c = 'L' then
      match _h : rest.dropWhile (· != ';') with
      | [] => .plain 'L' :: rest.map .plain
      | _ :: more => .ref (rest.takeWhile (· != ';')) :: pieces more
    else .plain c :: pieces rest
termination_by text => text.length
decreasing_by
  · have : (rest.dropWhile (· != ';')).length ≤ rest.length :=
      (List.dropWhile_suffix _).length_le
    rw [_h] at this
    simp at this ⊢
    omega
  · simp

/-- A piece as it is written. -/
def Piece.text : Piece → List Char
  | .plain c => [c]
  | .ref name => 'L' :: name ++ [';']

/-- The piece with its class renamed. -/
def Piece.rename (f : String → Option String) : Piece → Piece
  | .plain c => .plain c
  | .ref name => .ref ((f (String.ofList name)).elim name String.toList)

/-- The descriptor with every class that `f` names renamed. -/
def remap (f : String → Option String) (desc : String) : String :=
  String.ofList ((pieces desc.toList).flatMap fun p => (p.rename f).text)

end StableNames.Descriptor
