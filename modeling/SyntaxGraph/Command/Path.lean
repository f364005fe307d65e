/-
# Paths

A path is read name by name. Each name leads from a directory to a place in
it, save that `.` stays and `..` leads to the directory around it. Which places
hold something is not known here, see `Files`.

Key definitions: `Place`, `Place.step`, `Path`, `Path.ofText`.
-/

namespace SyntaxGraph
namespace Command

/-- The directory that the names of a place start at. -/
inductive Anchor where
  | root
  /-- So many levels above the working directory. -/
  | above (levels : Nat)
  deriving DecidableEq, Repr

/-- A place in the file system: a directory, and the names that lead down from
it, none of them `.` or `..`. -/
structure Place where
  anchor : Anchor
  names : List String
  deriving DecidableEq, Repr

namespace Place

/-- The place that names lead to from the working directory. -/
def inside (names : List String) : Place :=
  ⟨.above 0, names⟩

/-- The directory around a place. The root is its own. -/
def parent : Place → Place
  | ⟨anchor, name :: names⟩ => ⟨anchor, (name :: names).dropLast⟩
  | ⟨.root, []⟩ => ⟨.root, []⟩
  | ⟨.above levels, []⟩ => ⟨.above (levels + 1), []⟩

/-- The place that a name leads to. -/
def step (place : Place) (name : String) : Place :=
  if name = "." then place
  else if name = ".." then place.parent
  else { place with names := place.names ++ [name] }

/-- The other place lies below this one. -/
def encloses (place other : Place) : Bool :=
  place.anchor = other.anchor && place.names.isPrefixOf other.names &&
    place.names.length < other.names.length

end Place

/-- The parts of a path: where it starts, the names before the last, the last
name, which only a path to the root lacks, and whether a slash ends it. -/
structure Path where
  start : Place
  leading : List String
  last : Option String
  closed : Bool
  deriving DecidableEq, Repr

namespace Path

/-- The most bytes a name can have. -/
def nameLimit : Nat := 255

/-- The most bytes a path can have. -/
def lengthLimit : Nat := 4095

/-- The parts of the path that `text` spells. -/
def ofText (text : String) : Path :=
  let cs := text.toList
  let names := ((cs.splitOn '/').map String.ofList).filter fun name => !name.isEmpty
  ⟨⟨if cs.head? = some '/' then .root else .above 0, []⟩, names.dropLast, names.getLast?,
    cs.getLast? = some '/'⟩

/-- The place that a path leads to, whatever is there. -/
def place (path : Path) : Place :=
  (path.leading ++ path.last.toList).foldl Place.step path.start

end Path
end Command
end SyntaxGraph
