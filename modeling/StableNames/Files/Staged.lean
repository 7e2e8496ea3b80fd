-- Files that change all at once. New content is written next to its
-- target first and then moved over it, so that a reader finds the old file
-- or the new one. Of several files, all are written before any is moved.
import StableNames.Files.Tree

namespace StableNames.FileTree

/-- What is left of a tree when an operation that may fail leaves no trace. -/
def orKeep (t : FileTree) (result : Except FileFault FileTree) : FileTree :=
  match result with
  | .ok t => t
  | .error _ => t

/-- Writes the content for a target next to it, in a directory that is made if need be. -/
def stage (t : FileTree) (path text : String) : Except FileFault Unit × FileTree :=
  let up := (Path.parent? path).getD ""
  match t.makeDirectories (Path.upwards (up.length + 1) up) with
  | (.error fault, t) => (.error fault, t)
  | (.ok (), t) =>
    match t.write (Path.temporary path) text.toUTF8 with
    | .ok t => (.ok (), t)
    | .error fault => (.error fault, t)

/-- Removes what was written for these targets. -/
def unstage (t : FileTree) (paths : List String) : FileTree :=
  paths.foldl (fun t path => t.orKeep (t.removeFile (Path.temporary path))) t

/-- Writes the contents for all targets. When one fails, those before it are removed. -/
def stageAll (t : FileTree) (staged : List String) :
    List (String × String) → Except FileFault Unit × FileTree
  | [] => (.ok (), t)
  | (path, text) :: rest =>
    match t.stage path text with
    | (.ok (), t) => t.stageAll (staged ++ [path]) rest
    | (.error fault, t) => (.error fault, t.unstage staged)

/-- Moves the contents over their targets, in order. When one fails, it and those after it
are removed. -/
def moveAll (t : FileTree) : List String → Except FileFault Unit × FileTree
  | [] => (.ok (), t)
  | path :: rest =>
    match t.rename (Path.temporary path) path with
    | .ok t => t.moveAll rest
    | .error fault => (.error fault, t.unstage (path :: rest))

/-- Changes several files at once. -/
def replaceAll (t : FileTree) (files : List (String × String)) :
    Except FileFault Unit × FileTree :=
  match t.stageAll [] files with
  | (.error fault, t) => (.error fault, t)
  | (.ok (), t) => t.moveAll (files.map (·.1))

/-- Changes one file. When its content cannot be moved, it is removed. -/
def replace (t : FileTree) (path text : String) : Except FileFault Unit × FileTree :=
  match t.stage path text with
  | (.error fault, t) => (.error fault, t)
  | (.ok (), t) =>
    match t.rename (Path.temporary path) path with
    | .ok t => (.ok (), t)
    | .error fault => (.error fault, t.orKeep (t.removeFile (Path.temporary path)))

end StableNames.FileTree
