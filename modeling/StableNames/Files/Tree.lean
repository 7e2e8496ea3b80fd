-- A tree of files, and the operations of a file system on it. Each
-- operation is done or has no effect. A path is followed segment by
-- segment, and all but the last have to be directories.
import StableNames.Assoc
import StableNames.Files.Path
import StableNames.Problem

namespace StableNames

/-- What stands at a place of the tree. -/
inductive FileNode where
  | file (content : ByteArray)
  | directory
deriving BEq

/-- A place in the tree: the names on the way from the root. -/
abbrev Location := List String

/-- The files and directories below the root, and the place where relative paths start. -/
structure FileTree where
  nodes : Assoc Location FileNode := ∅
  here : Location := []

namespace FileTree

/-- What stands at a place. The root is always a directory. -/
def node? (t : FileTree) (l : Location) : Option FileNode :=
  if l = [] then some .directory else t.nodes.get? l

/-- The tree with something else at a place. -/
def put (t : FileTree) (l : Location) (n : FileNode) : FileTree :=
  { t with nodes := t.nodes.insert l n }

/-- The tree without what stands at a place. -/
def remove (t : FileTree) (l : Location) : FileTree :=
  { t with nodes := t.nodes.erase l }

/-! ## Following paths -/

/-- The place that segments lead to. Nothing has to be there. -/
def follow (t : FileTree) : Location → List String → Except FileFault Location
  | l, [] => .ok l
  | l, s :: rest =>
    match t.node? l with
    | none => .error .missing
    | some (.file _) => .error .notADirectory
    | some .directory =>
      if s = "." then t.follow l rest
      else if s = ".." then t.follow l.dropLast rest
      else t.follow (l ++ [s]) rest

/-- The longest name that a file can have, in bytes. -/
def nameLimit : Nat := 255

/-- The segments of a path to follow. A slash at the end asks for a directory, as a dot does. -/
def steps (path : String) : List String :=
  match (Path.segments path).reverse with
  | "" :: rest => (rest.filter (· ≠ "")).reverse ++ ["."]
  | _ => (Path.segments path).filter (· ≠ "")

/-- The place that a path leads to. -/
def locate (t : FileTree) (path : String) : Except FileFault Location :=
  if path = "" then .error .missing
  else if path.toList.contains '\x00' || (steps path).any (·.utf8ByteSize > nameLimit) then
    .error .invalidPath
  else t.follow (if Path.isAbsolute path then [] else t.here) (steps path)

/-- What a path leads to. -/
def find (t : FileTree) (path : String) : Except FileFault FileNode := do
  match t.node? (← t.locate path) with
  | some n => return n
  | none => throw .missing

/-- Whether a path leads to anything. -/
def has (t : FileTree) (path : String) : Bool := (t.find path).toBool

def isDirectory (t : FileTree) (path : String) : Bool :=
  match t.find path with
  | .ok .directory => true
  | _ => false

/-! ## Reading -/

/-- The text of a file. -/
def readText (t : FileTree) (path : String) : Except FileFault String := do
  match ← t.find path with
  | .directory => throw .isADirectory
  | .file content =>
    match String.fromUTF8? content with
    | some text => return text
    | none => throw .notText

/-- The text of a file that has to be there. -/
def load (t : FileTree) (path : String) : Except Problem String :=
  if t.has path then (t.readText path).mapError .file else .error (.fileNotFound path)

/-! ## Changing -/

/-- A new directory. -/
def makeDirectory (t : FileTree) (path : String) : Except FileFault FileTree := do
  let l ← t.locate path
  match t.node? l with
  | some _ => throw .alreadyThere
  | none => return t.put l .directory

/-- The first of the paths as a directory, where each path stands in the next one. What is
missing on the way is made; of a failure, all that was made before stays. -/
def makeDirectories (t : FileTree) : List String → Except FileFault Unit × FileTree
  | [] => (.ok (), t)
  | path :: up =>
    match t.makeDirectory path with
    | .ok t => (.ok (), t)
    | .error .missing =>
      match t.makeDirectories up with
      | (.error fault, t) => (.error fault, t)
      | (.ok (), t) =>
        match t.makeDirectory path with
        | .ok t => (.ok (), t)
        | .error fault => if t.isDirectory path then (.ok (), t) else (.error fault, t)
    | .error fault => if t.isDirectory path then (.ok (), t) else (.error fault, t)

/-- A file with a content, new or in place of the file that was there. -/
def write (t : FileTree) (path : String) (content : ByteArray) : Except FileFault FileTree := do
  let l ← t.locate path
  match t.node? l with
  | some .directory => throw .isADirectory
  | _ => return t.put l (.file content)

/-- The tree without a file. -/
def removeFile (t : FileTree) (path : String) : Except FileFault FileTree := do
  let l ← t.locate path
  match t.node? l with
  | some (.file _) => return t.remove l
  | some .directory => throw .isADirectory
  | none => throw .missing

/-- The places below a directory. -/
def below (t : FileTree) (l : Location) : List Location :=
  (t.nodes.entries.map (·.1)).filter fun m => l.isPrefixOf m && m ≠ l

/-- The tree with a directory and all below it at another place. -/
def moveDirectory (t : FileTree) (source target : Location) : FileTree :=
  let (moved, kept) := t.nodes.entries.partition fun e => source.isPrefixOf e.1
  { t with nodes :=
      .ofList (kept ++ moved.map fun e => (target ++ e.1.drop source.length, e.2)) }

/-- Whether a path ends in a dot or two, so that it names no entry of a directory. -/
def endsInDots (path : String) : Bool :=
  match ((Path.segments path).filter (· ≠ "")).getLast? with
  | some s => s = "." || s = ".."
  | none => true

/-- What stands at one path moved to another. A file takes the place of a file, and a
directory that of an empty directory. -/
def rename (t : FileTree) (source target : String) : Except FileFault FileTree := do
  let s ← t.locate source
  if endsInDots source || endsInDots target then throw .invalidPath
  match t.node? s with
  | none => throw .missing
  | some (.file content) =>
    let d ← t.locate target
    if d = s then return t
    match t.node? d with
    | some .directory => throw .isADirectory
    | _ => return (t.remove s).put d (.file content)
  | some .directory =>
    let d ← t.locate (Path.ofSegments (Path.trimEnd (Path.segments target)))
    if d = s then return t
    if s.isPrefixOf d then throw .insideItself
    match t.node? d with
    | some (.file _) => throw .notADirectory
    | some .directory =>
      if (t.below d).isEmpty then return (t.remove d).moveDirectory s d else throw .notEmpty
    | none => return t.moveDirectory s d

/-! ## Comparing -/

/-- The files below the place where relative paths start, by their paths. -/
def files (t : FileTree) : List (String × ByteArray) :=
  t.nodes.entries.filterMap fun (l, n) =>
    match n with
    | .file content =>
      if t.here.isPrefixOf l then some ("/".intercalate (l.drop t.here.length), content) else none
    | .directory => none

/-- The files that are new or changed since an earlier tree, and those that are gone. -/
def changesSince (t before : FileTree) : List (String × Option ByteArray) :=
  let old := before.files
  let new := t.files
  let changed := new.filter fun e => !old.any fun o => o.1 = e.1 && o.2.data = e.2.data
  let gone := old.filter fun e => decide (e.1 ∉ new.map (·.1))
  (changed.map fun (path, content) => (path, some content)) ++
    gone.map fun (path, _) => (path, none)

/-- The tree with a directory and all directories on the way to it. -/
def withDirectories (t : FileTree) (l : Location) : FileTree :=
  ((List.range (l.length + 1)).map l.take).foldl
    (fun t m => if (t.node? m).isSome then t else t.put m .directory) t

end FileTree

end StableNames
