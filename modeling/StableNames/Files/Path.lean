-- Paths as they are written. Slashes part the segments of a path; empty
-- segments, and dots that do not stand first, count for nothing.

namespace StableNames.Path

/-- The segments between slashes, empty ones and dots included. -/
def segments (path : String) : List String :=
  (path.toList.splitOn '/').map String.ofList

def isAbsolute (path : String) : Bool := path.toList.head? = some '/'

/-- Segments without those at the end that count for nothing. The first one always stays. -/
def trimEnd : List String → List String
  | [] => []
  | first :: rest => first :: (rest.reverse.dropWhile fun s => s = "" || s = ".").reverse

/-- The path that is made of segments. -/
def ofSegments : List String → String
  | [""] => "/"
  | ss => "/".intercalate ss

/-- The parts of a path that tell it from others: whether it starts at the root, and the
segments that count. -/
def parts (path : String) : Bool × List String :=
  match segments path with
  | [] => (false, [])
  | first :: rest =>
    (isAbsolute path,
      (if first = "" then [] else [first]) ++ rest.filter fun s => s ≠ "" && s ≠ ".")

/-- Whether two paths are the same in all that counts. -/
def same (a b : String) : Bool := parts a = parts b

/-- The last segment, if it is a name. -/
def fileName? (path : String) : Option String :=
  match (trimEnd (segments path)).getLast? with
  | some s => if s = "" || s = "." || s = ".." then none else some s
  | none => none

/-- The path without its last segment: nothing for the root and the empty path. -/
def parent? (path : String) : Option String :=
  match trimEnd (segments path) with
  | [] | [""] => none
  | ss =>
    match trimEnd ss.dropLast with
    | [] => some ""
    | up => some (ofSegments up)

/-- A name behind a path. -/
def join (path name : String) : String :=
  if path = "" || path.toList.getLast? = some '/' then path ++ name else path ++ "/" ++ name

/-- The path next to another one at which its new content is written first. -/
def temporary (path : String) : String :=
  match fileName? path with
  | some name => join ((parent? path).getD "") (name ++ ".tmp")
  | none => join path ".tmp"

/-- A path and the paths above it, up to but without the empty one. -/
def upwards : (fuel : Nat) → String → List String
  | 0, _ => []
  | fuel + 1, path =>
    if path = "" then []
    else path :: (match parent? path with | some up => upwards fuel up | none => [])

end StableNames.Path
