/-!
# Files in directories

A file tree holds directories and files by the names on the way to them. A path leads from name to
name; a name can also be that of the directory itself, `.`, or of the one above it, `..`. Nothing is
known of what lies above the tree.

## Main definitions

* `FileError`: why a file gives no text
* `FileTree`: directories and files
* `FileTree.read`: the bytes of the file that a path leads to, or why there are none
-/

namespace ExprReader

/-! ## Files that give no text -/

/-- Why a file gives no text. -/
inductive FileError
  /-- There is no such file. -/
  | notFound
  /-- There is something, but it cannot be read. -/
  | unreadable (reason : String)
  deriving DecidableEq, Repr

namespace FileError

/-- A directory stands in the place of the file. -/
def isDirectory : FileError := unreadable "Is a directory (os error 21)"

/-- The path leads on from something that is no directory. -/
def notDirectory : FileError := unreadable "Not a directory (os error 20)"

/-- A name or the whole path is longer than can be. -/
def nameTooLong : FileError := unreadable "File name too long (os error 36)"

/-- The path holds a character that would end it too soon. -/
def unexpectedNul : FileError := unreadable "file name contained an unexpected NUL byte"

end FileError

/-! ## Trees of directories and files -/

/-- Directories, and files with their bytes, each by the names on the way from the top. -/
structure FileTree where
  directories : List (List String)
  files : List (List String × List UInt8)
  deriving DecidableEq, Repr

namespace FileTree

/-- What a path can lead to. -/
inductive Entry
  | directory
  | file (bytes : List UInt8)
  deriving DecidableEq, Repr

/-- The names in a path, without the empty ones. -/
def names (path : String) : List String :=
  ((path.toList.splitOn '/').filter (!·.isEmpty)).map String.ofList

/-- The place that a name leads to from a place. -/
def enter (place : List String) (name : String) : List String :=
  if name = "." then place
  else if name = ".." then place.dropLast
  else place ++ [name]

/-- The places that names lead through from a place on, that one included. -/
def trail (place : List String) : List String → List (List String)
  | [] => [place]
  | name :: rest => place :: trail (enter place name) rest

/-- The place that a path leads to from the top. -/
def placeOf (path : String) : List String := (names path).foldl enter []

/-- The tree of directories and files made by their paths one after the other, with all directories
on the way. What is made later at the place of another file takes it. -/
def ofPaths (directories : List String) (files : List (String × List UInt8)) : FileTree where
  directories :=
    directories.flatMap (fun path => trail [] (names path)) ++
      files.flatMap fun (path, _) => trail [] (names path).dropLast
  files := (files.map fun (path, bytes) => (placeOf path, bytes)).reverse

/-- The longest name that a directory can hold, in bytes. -/
def maxName : Nat := 255

/-- The longest path, in bytes. -/
def maxPath : Nat := 4095

/-- What stands at a place; at the top there is always a directory. -/
def entry? (tree : FileTree) (place : List String) : Option Entry :=
  if place.isEmpty || tree.directories.contains place then some .directory
  else (tree.files.lookup place).map .file

/-- What the rest of a path leads to from a place. Only a directory leads on, even to itself.
`above` counts the directories above the tree that the path has gone to. -/
def walk (tree : FileTree) (above : Nat) (place : List String) :
    List String → Except FileError Entry
  | [] =>
    if above > 0 then .ok .directory
    else
      match tree.entry? place with
      | some entry => .ok entry
      | none => .error .notFound
  | name :: rest =>
    -- above the tree no names are known, so every way down is missing
    if above > 0 then
      if name = "." then tree.walk above place rest
      else if name = ".." then tree.walk (above + 1) place rest
      else if maxName < name.utf8ByteSize then .error .nameTooLong
      else .error .notFound
    else
      match tree.entry? place with
      | none => .error .notFound
      | some (.file _) => .error .notDirectory
      | some .directory =>
        if name = ".." ∧ place.isEmpty then tree.walk 1 place rest
        else if maxName < name.utf8ByteSize then .error .nameTooLong
        else tree.walk 0 (enter place name) rest

/-- The names that a path is followed by. A slash at its end asks for a directory, as if the name of
the directory itself followed. -/
def steps (path : String) : List String :=
  if path.toList.getLast? = some '/' then names path ++ ["."] else names path

/-- The bytes of the file that a path leads to. -/
def read (tree : FileTree) (path : String) : Except FileError (List UInt8) := do
  if path.toList.contains '\x00' then throw .unexpectedNul
  if path.isEmpty then throw .notFound
  if maxPath < path.utf8ByteSize then throw .nameTooLong
  -- what begins with a slash begins above the tree
  let above := if path.toList.head? = some '/' then 1 else 0
  match ← tree.walk above [] (steps path) with
  | .directory => throw .isDirectory
  | .file bytes => return bytes

end FileTree

end ExprReader
