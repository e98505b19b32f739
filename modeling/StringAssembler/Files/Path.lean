import StringAssembler.Text.Cut

/-!
# Paths

A path is a text whose names are separated by slashes.  Repeated slashes count as one.
A slash in front is not one between names: it says that the path starts at the root.  The
stem of a path is its last name without the extension; it becomes part of a symbol of the
listing.
-/

namespace StringAssembler
namespace Path

/-- The names of a path in order. -/
def names (path : String) : List String :=
  ((Text.pieces '/' path.toList).filter (· ≠ [])).map String.ofList

/-- Whether a path starts at the root. -/
def isAbsolute (path : String) : Bool :=
  path.toList.head? = some '/'

/-- Whether a path ends in a slash, and so can only name a directory. -/
def endsInSlash (path : String) : Bool :=
  path.toList.getLast? = some '/'

/-- A file name without its extension, which starts at the last dot.  A name whose
only dot comes first has no extension. -/
def stemOfName (name : String) : String :=
  match Text.cutLast? '.' name.toList with
  | some (before, _) => if before = [] then name else String.ofList before
  | none => name

/-- The stem of the last name of a path; a path that ends in no name has none. -/
def stem (path : String) : String :=
  match ((names path).filter (· ≠ ".")).getLast? with
  | some name => if name = ".." then "" else stemOfName name
  | none => ""

end Path
end StringAssembler
