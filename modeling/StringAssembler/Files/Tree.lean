import Std.Data.TreeMap
import StringAssembler.Files.Path

/-!
# File trees

A file tree holds files and directories by the names that lead to them from the root, and
one of these directories is the working directory.  There are no links, so every place has
one list of names.  A path with a slash in front is followed from the root and every other
path from the working directory, so a file is found under its names from either of them.
The way up from the root leads back to it.

Reading and writing follow the rules of a common operating system, including which
of several faults of a path is the one reported: the form of the path first, then its
names from left to right.
-/

namespace StringAssembler

/-- Why a file cannot be read or written. -/
inductive FileError where
  /-- The path holds a character that no path may hold. -/
  | invalidPath
  /-- The path or one of its names is too long. -/
  | nameTooLong
  /-- A name leads nowhere. -/
  | notFound
  /-- A file stands where a directory is needed. -/
  | notDirectory
  /-- A directory stands where a file is needed. -/
  | isDirectory
  /-- The content is no valid text. -/
  | notText
  /-- A fault of another kind, with the number and the words that the system has for
  it.  No file tree has such a fault. -/
  | other (number : Nat) (words : String)
  deriving DecidableEq, Repr

/-- The diagnostic for a file that cannot be read or written. -/
def FileError.message : FileError → String
  | .invalidPath => "file name contained an unexpected NUL byte"
  | .nameTooLong => "File name too long (os error 36)"
  | .notFound => "No such file or directory (os error 2)"
  | .notDirectory => "Not a directory (os error 20)"
  | .isDirectory => "Is a directory (os error 21)"
  | .notText => "stream did not contain valid UTF-8"
  | .other number words => words ++ " (os error " ++ toString number ++ ")"

/-- What a place in a tree holds. -/
inductive FileEntry where
  | file (content : ByteArray)
  | directory

/-- Files and directories by the names that lead to them from the root. -/
structure FileTree where
  /-- The place of the working directory. -/
  home : List String
  /-- What stands at the places, but for the working directory and those above it. -/
  entries : Std.TreeMap (List String) FileEntry

namespace FileTree

/-- The tree without files, around a working directory that is not the root. -/
def empty : FileTree := ⟨["work"], ∅⟩

/-- What stands at a place; the working directory and those above are always there. -/
def find? (tree : FileTree) (place : List String) : Option FileEntry :=
  if place <+: tree.home then some .directory else tree.entries[place]?

/-- What stands below the working directory, by the names that lead there from it, in
ascending order. -/
def toList (tree : FileTree) : List (List String × FileEntry) :=
  tree.entries.toList.filterMap fun (place, entry) =>
    if tree.home <+: place then some (place.drop tree.home.length, entry) else none

/-- Puts an entry at a place. -/
def insert (tree : FileTree) (place : List String) (entry : FileEntry) : FileTree :=
  { tree with entries := tree.entries.insert place entry }

/-! ## Following a path -/

/-- The greatest size of a name in bytes. -/
def nameLimit : Nat := 255

/-- The size in bytes from which on a path is too long. -/
def pathLimit : Nat := 4096

/-- Refuses a path that has a fault of form. -/
def checkPath (path : String) : Except FileError Unit :=
  if path.toList.contains '\x00' then .error .invalidPath
  else if pathLimit ≤ path.utf8ByteSize then .error .nameTooLong
  else if path = "" then .error .notFound
  else .ok ()

/-- The directory from which the names of a path lead on. -/
def start (tree : FileTree) (path : String) : List String :=
  if Path.isAbsolute path then [] else tree.home

/-- The place to which a name leads from a directory, and what stands there. -/
def enter (tree : FileTree) (here : List String) (name : String) :
    Except FileError (List String × FileEntry) :=
  if name = "." then .ok (here, .directory)
  else if name = ".." then .ok (here.dropLast, .directory)
  else if nameLimit < name.utf8ByteSize then .error .nameTooLong
  else
    match tree.find? (here ++ [name]) with
    | some entry => .ok (here ++ [name], entry)
    | none => .error .notFound

/-- The directory to which names lead from a directory. -/
def walk (tree : FileTree) (here : List String) : List String → Except FileError (List String)
  | [] => .ok here
  | name :: rest =>
      match tree.enter here name with
      | .ok (there, .directory) => tree.walk there rest
      | .ok (_, .file _) => .error .notDirectory
      | .error e => .error e

/-- The place to which a path leads, and what stands there. -/
def locate (tree : FileTree) (path : String) : Except FileError (List String × FileEntry) := do
  checkPath path
  match (Path.names path).getLast? with
  | none => return (tree.start path, .directory)
  | some name => tree.enter (← tree.walk (tree.start path) (Path.names path).dropLast) name

/-- What stands at the end of a path.  Behind a final slash only a directory may. -/
def resolve (tree : FileTree) (path : String) : Except FileError FileEntry := do
  match ← tree.locate path with
  | (_, .directory) => return .directory
  | (_, .file content) =>
      if Path.endsInSlash path then throw .notDirectory else return .file content

/-! ## Reading and writing -/

/-- The content of a file. -/
def read (tree : FileTree) (path : String) : Except FileError ByteArray :=
  match tree.resolve path with
  | .ok (.file content) => .ok content
  | .ok .directory => .error .isDirectory
  | .error e => .error e

/-- Whether writing to a path would start from nothing: there is no file, or it has no
bytes. -/
def isBlank (tree : FileTree) (path : String) : Bool :=
  match tree.resolve path with
  | .ok (.file content) => content.size = 0
  | .ok .directory => false
  | .error _ => true

/-- The place of the file that a path opens for writing.  The file need not exist, but
its directory has to. -/
def target (tree : FileTree) (path : String) : Except FileError (List String) := do
  checkPath path
  match (Path.names path).getLast? with
  | none => throw .isDirectory
  | some name =>
      let here ← tree.walk (tree.start path) (Path.names path).dropLast
      if Path.endsInSlash path || name = "." || name = ".." then throw .isDirectory
      else
        match tree.enter here name with
        | .ok (_, .directory) => throw .isDirectory
        | .ok (place, .file _) => return place
        | .error .notFound => return here ++ [name]
        | .error e => throw e

/-- The bytes of the file at a place, none if there is no file. -/
def contentAt (tree : FileTree) (place : List String) : ByteArray :=
  match tree.find? place with
  | some (.file content) => content
  | _ => ByteArray.empty

/-- Writes bytes to a file, behind its content or in place of it. -/
def write (tree : FileTree) (path : String) (append : Bool) (bytes : ByteArray) :
    Except FileError FileTree :=
  match tree.target path with
  | .error e => .error e
  | .ok place =>
      let kept := if append then tree.contentAt place else ByteArray.empty
      .ok (tree.insert place (.file (kept ++ bytes)))

/-! ## Setting up a tree -/

/-- The directory to which names lead from a directory, made on the way where nothing
stands yet. -/
def makeWay (tree : FileTree) (here : List String) : List String → List String × FileTree
  | [] => (here, tree)
  | name :: rest =>
      if name = "." then tree.makeWay here rest
      else if name = ".." then tree.makeWay here.dropLast rest
      else
        let there := here ++ [name]
        let made := if (tree.find? there).isSome then tree else tree.insert there .directory
        made.makeWay there rest

/-- Puts a directory at a path, with the directories on the way to it. -/
def putDirectory (tree : FileTree) (path : String) : FileTree :=
  (tree.makeWay (tree.start path) (Path.names path)).2

/-- Puts a file at a path, with the directories on the way to it. -/
def putFile (tree : FileTree) (path : String) (content : ByteArray) : FileTree :=
  match (Path.names path).getLast? with
  | none => tree
  | some name =>
      let (here, made) := tree.makeWay (tree.start path) (Path.names path).dropLast
      made.insert (here ++ [name]) (.file content)

/-- Removes what stands at the end of a path and everything below it. -/
def remove (tree : FileTree) (path : String) : FileTree :=
  match tree.locate path with
  | .ok (place, _) =>
      { tree with entries := tree.entries.filter fun other _ => !place.isPrefixOf other }
  | .error _ => tree

end FileTree
end StringAssembler
