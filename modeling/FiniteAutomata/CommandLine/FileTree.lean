import FiniteAutomata.File
import FiniteAutomata.SortedMap

/-!
# Files by their paths

A path is a row of steps with slashes between them. They are taken from the working directory, or
from the root if the path begins with a slash. An empty step and a single dot stay where one is,
two dots lead to the directory around it, and a name leads to what the directory holds under it.
Every step but the last must lead to a directory, and so must the last one if slashes follow it.

* `FileTree.follow` — where the steps of a path lead.
* `FileTree.find`, `FileTree.place` — what there is to be read under a path, and what to be written.
-/

namespace FiniteAutomata

/-- What can be read and written like a file without being one. -/
inductive Device
  /-- Drops what is written to it. -/
  | null
  /-- Has no room for anything that is written to it. -/
  | full
  /-- The standard input. -/
  | input
  /-- The standard output. -/
  | output
  /-- The standard error stream. -/
  | errors
  /-- The terminal, if there is one. -/
  | terminal
deriving DecidableEq

/-- What a directory can hold under a name, other directories apart. -/
inductive FileNode
  | file (bytes : ByteArray)
  | device (device : Device)

/-- Files and devices, by the shortest paths to them. Besides the working directory and those around
it, the directories that hold one of them are there, and no others. -/
abbrev FileTree := SortedMap String FileNode

namespace FileTree

/-- What a path leads to. -/
inductive Target
  | directory
  /-- A name in a directory, under which there is something else or nothing. It was given with
  slashes behind it or without. -/
  | entry (name path : String) (slashed : Bool)

/-- The devices, which have the same paths everywhere. -/
def devices : List (String × Device) :=
  [("/dev/null", .null), ("/dev/zero", .null), ("/dev/full", .full), ("/dev/tty", .terminal),
   ("/dev/stdin", .input), ("/dev/fd/0", .input), ("/proc/self/fd/0", .input),
   ("/dev/stdout", .output), ("/dev/fd/1", .output), ("/proc/self/fd/1", .output),
   ("/dev/stderr", .errors), ("/dev/fd/2", .errors), ("/proc/self/fd/2", .errors)]

/-- The devices, and the files with these contents. -/
def ofFiles (files : List (String × ByteArray)) : FileTree :=
  let nodes := devices.map (fun d => (d.1, FileNode.device d.2)) ++
    files.map fun f => (f.1, FileNode.file f.2)
  nodes.foldl (fun tree node => tree.insert node.1 node.2) ∅

/-- The number of bytes that a name can have in a directory. -/
def longestName : Nat := 255

/-- The number of bytes that a path can have. -/
def longestPath : Nat := 4095

/-! ## Directories

A directory is given by the steps of the shortest path to it, the last step first: `[]` is the
working directory, and the empty step leads to the root. -/

/-- The path that consists of the steps. -/
def pathOf (steps : List String) : String := "/".intercalate steps.reverse

/-- The directory around a directory. The root is around itself. -/
def enclosing : List String → List String
  | [] => [".."]
  | [""] => [""]
  | ".." :: outer => ".." :: ".." :: outer
  | _ :: outer => outer

/-- Whether something is in the directory, or further down. -/
def isDirectory (tree : FileTree) (steps : List String) : Bool :=
  tree.toList.any fun node => node.1.startsWith (pathOf steps ++ "/")

/-! ## Paths -/

/-- Follows steps from a directory. -/
def follow (tree : FileTree) (here : List String) : List String → Except FileError Target
  | [] => .ok .directory
  | step :: rest =>
    if step == "" || step == "." then tree.follow here rest
    else if step == ".." then tree.follow (enclosing here) rest
    else if tree.isDirectory (step :: here) then tree.follow (step :: here) rest
    else
      let path := pathOf (step :: here)
      if rest.all (·.isEmpty) then .ok (.entry step path (!rest.isEmpty))
      else if longestName < step.utf8ByteSize then .error .nameTooLong
      else if tree.contains path then .error .notDirectory
      else .error .notFound

/-- Follows a path from the working directory. -/
def target (tree : FileTree) (path : String) : Except FileError Target :=
  if path.isEmpty then .error .notFound
  else if longestPath < path.utf8ByteSize then .error .nameTooLong
  else
    tree.follow (if path.startsWith "/" then [""] else [])
      ((path.toList.splitOn '/').map String.ofList)

/-- The file or device under a path that is to be read; there is none if the path is that of a
directory, which can be opened as well. -/
def find (tree : FileTree) (path : String) : Except FileError (Option FileNode) := do
  match ← tree.target path with
  | .directory => return none
  | .entry name path slashed =>
    if longestName < name.utf8ByteSize then throw .nameTooLong
    match tree.get? path with
    | none => throw .notFound
    | some node => if slashed then throw .notDirectory else return some node

/-- The shortest path of a file or device that is to be written, whether or not it is there. With
slashes behind it, any name is taken for that of a directory. -/
def place (tree : FileTree) (path : String) : Except FileError String := do
  match ← tree.target path with
  | .directory => throw .isDirectory
  | .entry name path slashed =>
    if slashed then throw .isDirectory
    if longestName < name.utf8ByteSize then throw .nameTooLong
    return path

end FileTree

end FiniteAutomata
