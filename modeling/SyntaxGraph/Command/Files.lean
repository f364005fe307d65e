/-
# A file system

What the command can see of a file system: files, each at its place. A
directory is where a file lies below, and at the working directory and every
directory around it.

A path leads somewhere if each of its names but the last leads to a directory.
Reading wants a file there; writing makes one, unless a directory is in the way
or the path can only mean one.

Key definitions: `Fault`, `Files`, `Files.lookUp`, `Files.read`, `Files.write`.
-/
import SyntaxGraph.Command.Path

namespace SyntaxGraph
namespace Command

/-- Why a file cannot be read or written. -/
inductive Fault where
  | notFound
  | denied
  | notDirectory
  | isDirectory
  | nameTooLong
  | notText
  /-- Some other reason, in words. -/
  | other (message : String)
  deriving DecidableEq, Repr

/-- The reason in words. -/
def Fault.message : Fault → String
  | notFound => "No such file or directory (os error 2)"
  | denied => "Permission denied (os error 13)"
  | notDirectory => "Not a directory (os error 20)"
  | isDirectory => "Is a directory (os error 21)"
  | nameTooLong => "File name too long (os error 36)"
  | notText => "stream did not contain valid UTF-8"
  | other message => message

/-- Files and their places. -/
structure Files where
  entries : List (Place × ByteArray)

/-- What a place holds. -/
inductive Holding where
  | nothing
  | directory
  | file (contents : ByteArray)

namespace Files

/-- No files. -/
def empty : Files :=
  ⟨[]⟩

/-- The contents of the file at a place. -/
def contents? (files : Files) (place : Place) : Option ByteArray :=
  files.entries.lookup place

/-- A directory is at this place. -/
def isDirectory (files : Files) (place : Place) : Bool :=
  place.names.isEmpty || files.entries.any fun entry => place.encloses entry.1

/-- What is at this place. -/
def holding (files : Files) (place : Place) : Holding :=
  if files.isDirectory place then .directory
  else match files.contents? place with
    | some contents => .file contents
    | none => .nothing

/-- The files with a file of these contents at a place. -/
def put (files : Files) (place : Place) (contents : ByteArray) : Files :=
  ⟨(place, contents) :: files.entries.filter fun entry => entry.1 ≠ place⟩

/-- What a name leads to from a directory. -/
def lookUp (files : Files) (directory : Place) (name : String) : Except Fault Holding :=
  if name.utf8ByteSize > Path.nameLimit then throw .nameTooLong
  else return files.holding (directory.step name)

/-- The directory that names lead to from a directory. -/
def enter (files : Files) (directory : Place) : List String → Except Fault Place
  | [] => return directory
  | name :: names => do
    match ← files.lookUp directory name with
    | .nothing => throw .notFound
    | .file _ => throw .notDirectory
    | .directory => files.enter (directory.step name) names

/-- The parts of the path that `text` spells, and the directory its last name
is looked up in. -/
def resolve (files : Files) (text : String) : Except Fault (Path × Place) := do
  if text.isEmpty then throw .notFound
  if text.utf8ByteSize > Path.lengthLimit then throw .nameTooLong
  let path := Path.ofText text
  return (path, ← files.enter path.start path.leading)

/-- The contents of the file that a path leads to. A slash behind the path asks
for a directory. -/
def read (files : Files) (text : String) : Except Fault ByteArray := do
  let (path, directory) ← files.resolve text
  match path.last with
  | none => throw .isDirectory
  | some name =>
    match ← files.lookUp directory name with
    | .nothing => throw .notFound
    | .directory => throw .isDirectory
    | .file contents => if path.closed then throw .notDirectory else return contents

/-- The files once the path leads to a file with these contents. A path with a
slash behind it cannot, whatever is there. -/
def write (files : Files) (text : String) (contents : ByteArray) : Except Fault Files := do
  let (path, directory) ← files.resolve text
  match path.last with
  | none => throw .isDirectory
  | some name =>
    if path.closed then throw .isDirectory
    match ← files.lookUp directory name with
    | .directory => throw .isDirectory
    | .nothing | .file _ => return files.put (directory.step name) contents

end Files
end Command
end SyntaxGraph
