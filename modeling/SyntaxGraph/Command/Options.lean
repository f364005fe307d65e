/-
# The command line

Options have a long name, some also a short one. A value follows its option as
the next argument or directly: `--output=P`, `-oP`, `-o=P`. Short options may
share a dash. Behind `--` every argument is the source file; a lone `-` is a
file name too, and no value may look like an option otherwise. Nothing may be
given twice, and paths are not empty.

Arguments are read from left to right, and the first that asks for help or for
the version, or is misused, decides.

Key definitions: `Options`, `Stop`, `Misuse`, `Options.ofArguments`.
-/
import SyntaxGraph.Graph.Dot

namespace SyntaxGraph
namespace Command

/-- What the command line asks for. -/
structure Options where
  file : Option String
  output : Option String
  graphName : Option String
  noOutline : Bool
  noGraph : Bool
  noEdgeLabels : Bool
  verbose : Bool
  deriving DecidableEq, Repr

/-- The options that are either given or not. -/
inductive Switch where
  | noOutline | noGraph | noEdgeLabels | verbose
  deriving DecidableEq, Repr

/-- The options that take a value. -/
inductive Setting where
  | output | graphName
  deriving DecidableEq, Repr

/-- All options. -/
inductive Choice where
  | switch (s : Switch)
  | setting (s : Setting)
  | help
  | version
  deriving DecidableEq, Repr

/-- How a command line can be wrong. -/
inductive Misuse where
  | unknownOption (argument : String)
  | givenTwice (argument : String)
  | missingValue (argument : String)
  | unexpectedValue (argument : String)
  | extraArgument (argument : String)
  deriving DecidableEq, Repr

/-- The misuse in words. -/
def Misuse.message : Misuse → String
  | unknownOption a => "error: unexpected argument '" ++ a ++ "' found"
  | givenTwice a => "error: the argument '" ++ a ++ "' cannot be used multiple times"
  | missingValue a => "error: a value is required for '" ++ a ++ "' but none was supplied"
  | unexpectedValue a => "error: unexpected value in '" ++ a ++ "'"
  | extraArgument a => "error: unexpected argument '" ++ a ++ "' found"

/-- Why nothing is to be run. -/
inductive Stop where
  | help
  | version
  | misuse (m : Misuse)
  deriving DecidableEq, Repr

/-- The option with the long name `name`. -/
def Choice.ofName (name : String) : Option Choice :=
  [("output", Choice.setting .output), ("no-ast", .switch .noOutline),
    ("no-graph", .switch .noGraph), ("graph-name", .setting .graphName),
    ("no-edge-labels", .switch .noEdgeLabels), ("verbose", .switch .verbose),
    ("help", .help), ("version", .version)].lookup name

/-- The option with the short name `c`. -/
def Choice.ofLetter (c : Char) : Option Choice :=
  [('o', Choice.setting .output), ('v', .switch .verbose), ('h', .help),
    ('V', .version)].lookup c

/-- The argument has the form of an option: a dash with something behind it. -/
def isOptionLike (argument : String) : Bool :=
  match argument.toList with
  | '-' :: _ :: _ => true
  | _ => false

namespace Options

/-- Nothing is asked for. -/
def none : Options :=
  ⟨.none, .none, .none, false, false, false, false⟩

/-- How graphs are written. -/
def dotOptions (o : Options) : DotOptions :=
  ⟨o.graphName.getD DotOptions.default.name, !o.noEdgeLabels⟩

/-- The options with a switch given by the argument `a`. -/
def give (o : Options) (a : String) : Switch → Except Stop Options
  | .noOutline => once o.noOutline { o with noOutline := true }
  | .noGraph => once o.noGraph { o with noGraph := true }
  | .noEdgeLabels => once o.noEdgeLabels { o with noEdgeLabels := true }
  | .verbose => once o.verbose { o with verbose := true }
where
  /-- The new options, unless the switch has been given before. -/
  once (given : Bool) (new : Options) : Except Stop Options :=
    if given then throw (.misuse (.givenTwice a)) else return new

/-- The options with a setting given by the argument `a`. -/
def set (o : Options) (a : String) (setting : Setting) (value : String) : Except Stop Options :=
  match setting with
  | .output =>
    if value.isEmpty then throw (.misuse (.missingValue a))
    else if o.output.isSome then throw (.misuse (.givenTwice a))
    else return { o with output := some value }
  | .graphName =>
    if o.graphName.isSome then throw (.misuse (.givenTwice a))
    else return { o with graphName := some value }

/-- The options with the source file `path`. -/
def addFile (o : Options) (path : String) : Except Stop Options :=
  if o.file.isSome then throw (.misuse (.extraArgument path))
  else if path.isEmpty then throw (.misuse (.missingValue path))
  else return { o with file := some path }

/-- The options with every argument as the source file. -/
def addFiles : Options → List String → Except Stop Options
  | o, [] => return o
  | o, a :: rest => do addFiles (← o.addFile a) rest

/-- Reads the letters behind a dash in the argument `a`. A setting takes the
rest of the letters as its value; without any it is the second result. -/
def addLetters (a : String) (o : Options) : List Char → Except Stop (Options × Option Setting)
  | [] => return (o, .none)
  | c :: cs =>
    match Choice.ofLetter c with
    | .none => throw (.misuse (.unknownOption a))
    | some .help => throw .help
    | some .version => throw .version
    | some (.switch s) => do addLetters a (← o.give a s) cs
    | some (.setting s) =>
      match cs with
      | [] => return (o, some s)
      | '=' :: value => return (← o.set a s (String.ofList value), .none)
      | value => return (← o.set a s (String.ofList value), .none)

/-- Reads the name behind two dashes in the argument `a`, and a value behind
`=`. A setting without a value is the second result. -/
def addName (a : String) (o : Options) (cs : List Char) :
    Except Stop (Options × Option Setting) :=
  let name := cs.takeWhile (· ≠ '=')
  let value := match cs.drop name.length with
    | _ :: value => some (String.ofList value)
    | [] => .none
  match Choice.ofName (String.ofList name), value with
  | .none, _ => throw (.misuse (.unknownOption a))
  | some (.setting s), some value => return (← o.set a s value, .none)
  | some (.setting s), .none => return (o, some s)
  | some _, some _ => throw (.misuse (.unexpectedValue a))
  | some (.switch s), .none => return (← o.give a s, .none)
  | some .help, .none => throw .help
  | some .version, .none => throw .version

/-- Reads one argument, which is not `--`. -/
def addArgument (o : Options) (a : String) : Except Stop (Options × Option Setting) :=
  match a.toList with
  | '-' :: '-' :: cs => addName a o cs
  | '-' :: c :: cs => addLetters a o (c :: cs)
  | _ => return (← o.addFile a, .none)

/-- Reads the arguments. -/
def addArguments : Options → List String → Except Stop Options
  | o, [] => return o
  | o, a :: rest =>
    if a = "--" then o.addFiles rest
    else do
      match ← o.addArgument a, rest with
      | (o, .none), rest => addArguments o rest
      | (_, some _), [] => throw (.misuse (.missingValue a))
      | (o, some s), value :: rest =>
        if isOptionLike value then throw (.misuse (.missingValue a))
        else addArguments (← o.set a s value) rest

/-- What the arguments ask for. -/
def ofArguments (arguments : List String) : Except Stop Options :=
  none.addArguments arguments

end Options
end Command
end SyntaxGraph
