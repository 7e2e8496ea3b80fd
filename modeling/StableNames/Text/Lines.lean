-- Lines and columns. A line ends at a line feed; a carriage return just
-- before that line feed belongs to the line end. The last line needs no
-- line feed, and without one it keeps its carriage return.

namespace StableNames.Text

/-- The lines of a text, without their ends. -/
def lines : List Char → List (List Char)
  | [] => []
  | '\n' :: rest => [] :: lines rest
  | '\r' :: '\n' :: rest => [] :: lines rest
  | c :: rest =>
    match lines rest with
    | [] => [[c]]
    | line :: more => (c :: line) :: more

/-- The lines of a string, in order. -/
def linesOf (text : String) : List String :=
  (lines text.toList).map String.ofList

/-- The columns of a line, parted by tabs. -/
def columnsOf (line : String) : List String :=
  (line.toList.splitOn '\t').map String.ofList

/-- The columns put back into a line with its end. -/
def lineOf (columns : List String) : String :=
  "\t".intercalate columns ++ "\n"

end StableNames.Text
