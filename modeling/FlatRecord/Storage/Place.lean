import FlatRecord.Bytes

/-! Where a path leads. A tree of files without links decides whether a path names something, nothing yet,
or cannot be followed, and each of these has its error. -/
namespace FlatRecord.Storage

inductive FileError where
  | emptyBuffer
  | emptyFile
  | missing
  | denied
  | notMappable
  | notDirectory
  | isDirectory
  | noLength
  | nameTooLong
deriving DecidableEq, Repr

def FileError.message : FileError → String
  | emptyBuffer => "cannot map an empty buffer"
  | emptyFile => "buffer file is empty"
  | missing => "No such file or directory (os error 2)"
  | denied => "Permission denied (os error 13)"
  | notMappable => "No such device (os error 19)"
  | notDirectory => "Not a directory (os error 20)"
  | isDirectory => "Is a directory (os error 21)"
  | noLength => "Invalid argument (os error 22)"
  | nameTooLong => "File name too long (os error 36)"

/-- What a path leads to. -/
inductive Place where
  | file (contents : Bytes)
  /-- No file, in a directory that takes one. -/
  | vacant
  | directory
  /-- It reads as empty and cannot be given a length. -/
  | device
  /-- The path cannot be followed: what a reader is told, and what one who wants to make a file is. -/
  | astray (reading making : FileError)
deriving DecidableEq, Repr

/-- A directory has a length, so that only mapping it fails. -/
def Place.contents : Place → Except FileError Bytes
  | file contents => .ok contents
  | vacant => .error .missing
  | directory => .error .notMappable
  | device => .ok #[]
  | astray reading _ => .error reading

/-- Why no file of some length can be made in this place. -/
def Place.refusal? : Place → Option FileError
  | file _ | vacant => none
  | directory => some .isDirectory
  | device => some .noLength
  | astray _ making => some making

/-- The names on the way down from the root. -/
abbrev Path := List String

inductive Node where
  | file (contents : Bytes)
  | directory
  | device
deriving DecidableEq, Repr

structure FileTree where
  nodes : List (Path × Node)
  /-- The directory where relative paths begin. -/
  current : Path
deriving DecidableEq, Repr

/-- The longest name in bytes. -/
def maxNameLength : Nat := 255

/-- The longest path in bytes. -/
def maxPathLength : Nat := 4095

namespace FileTree

/-- The root is a directory in every tree. -/
def node? (t : FileTree) : Path → Option Node
  | [] => some .directory
  | path => t.nodes.lookup path

/-- The tree with a file at a path, in place of what was there. -/
def put (t : FileTree) (path : Path) (contents : Bytes) : FileTree :=
  { t with nodes := (path, .file contents) :: t.nodes }

/-- One name is looked up, which takes a directory to look in. -/
def step (t : FileTree) (path : Path) (name : String) : Except FileError Path :=
  match t.node? path with
  | none => .error .missing
  | some .directory =>
    if name = "" ∨ name = "." then .ok path
    else if name = ".." then .ok path.dropLast
    else if maxNameLength < name.utf8ByteSize then .error .nameTooLong
    else .ok (path ++ [name])
  | some _ => .error .notDirectory

/-- Follows names from the root if the first of them is empty. -/
def follow (t : FileTree) (names : List String) : Except FileError Path :=
  names.foldlM t.step (if names.head? = some "" then [] else t.current)

/-- The names of a path's text, which ends in an empty one if a slash ends it. -/
def names (text : String) : Except FileError (List String) :=
  if text = "" then .error .missing
  else if maxPathLength < text.utf8ByteSize then .error .nameTooLong
  else .ok (text.splitOn "/")

/-- The way to a path's last name, and a check that it ends in a directory. -/
def way (names : List String) : List String :=
  ((names.reverse.dropWhile (· = "")).drop 1).reverse ++ ["."]

/-- A slash at the end asks for a directory, and a file cannot be made as one. -/
def refusal (t : FileTree) (names : List String) (reading : FileError) : FileError :=
  if names.getLast? = some "" ∧ (t.follow (way names)).toOption.isSome then .isDirectory
  else reading

def resolve (t : FileTree) (text : String) : Except FileError Path := do t.follow (← names text)

def place (t : FileTree) (text : String) : Place :=
  match names text with
  | .error e => .astray e e
  | .ok names =>
    match t.follow names with
    | .error e => .astray e (t.refusal names e)
    | .ok path =>
      match t.node? path with
      | some (.file contents) => .file contents
      | some .directory => .directory
      | some .device => .device
      | none => .vacant

end FileTree

end FlatRecord.Storage
