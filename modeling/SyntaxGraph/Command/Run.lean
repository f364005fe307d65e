/-
# Running the command

The command reads a source text, parses it, prints its outline and its graph,
and writes the graph to a file if asked to. It speaks to the world twice: it
reads the source and it may write one file. What it prints in between is
decided by `afterReading` and `afterWriting`, so that the same steps run on the
files of a machine and on `Files`.

Key definitions: `Report`, `Command.source`, `Command.afterReading`,
`Command.afterWriting`, `Command.run`.
-/
import SyntaxGraph.Command.Files
import SyntaxGraph.Command.Options
import SyntaxGraph.Grammar.Program
import SyntaxGraph.Outline

namespace SyntaxGraph
namespace Command

/-- What a run shows, and its exit code. -/
structure Report where
  code : UInt8
  stdout : String
  stderr : String
  deriving DecidableEq, Repr

/-- Where the source text comes from. -/
inductive Source where
  | standardInput
  | file (path : String)
  deriving DecidableEq, Repr

/-- The source as messages name it. -/
def Source.name : Source → String
  | standardInput => "<stdin>"
  | file path => path

/-- What a run that cannot read its source says. -/
def Source.failure : Source → String
  | standardInput => "failed to read standard input"
  | file path => "failed to read '" ++ path ++ "'"

/-- The source: standard input unless a file is given, by its name `-` too. -/
def source (o : Options) : Source :=
  match o.file with
  | some path => if path = "-" then .standardInput else .file path
  | none => .standardInput

/-- A file to be written. -/
structure Writing where
  path : String
  contents : String
  deriving DecidableEq, Repr

/-! ### Messages -/

/-- A section header, dimmed. The sequences are those that crossterm documents: an attribute
is `CSI n m`, with 2 for dim and 1 for bold, and 0 resets it. -/
def header (title : String) : String :=
  "\x1b[2m" ++ title ++ "\x1b[0m\n"

/-- The line of an error, its first word bold and red. A colour is `CSI 38;5;n m`, as crossterm
documents it, with 9 for red. -/
def errorLine (message : String) : String :=
  "\x1b[38;5;9m\x1b[1merror:\x1b[0m " ++ message ++ "\n"

/-- A progress message, if they are asked for. -/
def note (o : Options) (message : String) : String :=
  if o.verbose then message ++ "\n" else ""

/-! ### The steps of a run -/

/-- What is known of a run after the source has been read: what it has shown so
far, and the file to be written, if any. -/
structure Progress where
  report : Report
  writing : Option Writing
  deriving DecidableEq, Repr

/-- A run that ends with an error, after the progress messages `said`. -/
def failed (said message : String) : Progress :=
  ⟨⟨1, "", said ++ errorLine message⟩, none⟩

/-- What the sections of a parsed program show on standard output. -/
def sections (o : Options) (outline dot : String) : String :=
  if o.noOutline then if o.noGraph then "" else dot
  else if o.noGraph then outline
  else header "AST" ++ outline ++ "\n" ++ header "Graph" ++ dot

/-- The run with the program `p`, after the progress messages `said`. -/
def withProgram (o : Options) (said : String) (p : Program) : Progress :=
  let graph := p.graph
  let dot := graph.dot o.dotOptions
  let parsed := note o ("Parsed successfully. Found " ++ Decimal.natText p.functions.length ++
    " function definitions.")
  let rendered :=
    if o.noGraph && o.output.isNone then ""
    else note o ("Rendered graph with " ++ Decimal.natText graph.vertices.size ++ " nodes and " ++
      Decimal.natText graph.edges.size ++ " edges.")
  ⟨⟨0, sections o p.outlineText dot, said ++ parsed ++ rendered⟩,
    o.output.map fun path => ⟨path, dot⟩⟩

/-- The run with the source text `text`. -/
def withText (o : Options) (text : String) : Progress :=
  let name := (source o).name
  let said := note o ("Parsing " ++ name ++ "...")
  match parseSource text with
  | .error e => failed said ("failed to parse " ++ name ++ ": " ++ e.message)
  | .ok p => withProgram o said p

/-- Bytes as text. -/
def decode (bytes : ByteArray) : Except Fault String :=
  match String.fromUTF8? bytes with
  | some text => return text
  | none => throw .notText

/-- The run once the source has been read, or could not be. -/
def afterReading (o : Options) (bytes : Except Fault ByteArray) : Progress :=
  match bytes.bind decode with
  | .error fault => failed "" ((source o).failure ++ ": " ++ fault.message)
  | .ok text => withText o text

/-- The run once its file has been written, or could not be. -/
def afterWriting (o : Options) (r : Report) (w : Writing) (result : Except Fault Unit) : Report :=
  match result with
  | .ok () => { r with stderr := r.stderr ++ note o ("Wrote " ++ w.path) }
  | .error fault =>
    { r with
      code := 1
      stderr := r.stderr ++ errorLine ("failed to write '" ++ w.path ++ "': " ++ fault.message) }

/-! ### Whole runs -/

/-- The version. -/
def versionText : String :=
  "pl0dot 0.1.0\n"

/-- The help. -/
def helpText : String :=
  Text.unlines [
    "Parse a source file and render its syntax tree",
    "",
    "Usage: pl0dot [OPTIONS] [FILE]",
    "",
    "Arguments:",
    "  [FILE]  Source file; reads standard input when omitted or \"-\"",
    "",
    "Options:",
    "  -o, --output <PATH>   Also write the graph description to PATH",
    "      --no-ast          Do not print the AST outline",
    "      --no-graph        Do not print the graph description",
    "      --graph-name <N>  Name of the emitted digraph [default: AST]",
    "      --no-edge-labels  Omit role labels on edges",
    "  -v, --verbose         Progress messages on standard error",
    "  -h, --help            Print help",
    "  -V, --version         Print version"]

/-- What the command shows when it runs nothing. -/
def Stop.report : Stop → Report
  | .help => ⟨0, helpText, ""⟩
  | .version => ⟨0, versionText, ""⟩
  | .misuse m => ⟨2, "", m.message ++ "\n"⟩

/-- A run with these options on these files. -/
def perform (o : Options) (stdin : ByteArray) (files : Files) : Report × Files :=
  let bytes := match source o with
    | .standardInput => .ok stdin
    | .file path => files.read path
  let progress := afterReading o bytes
  match progress.writing with
  | none => (progress.report, files)
  | some w =>
    match files.write w.path w.contents.toUTF8 with
    | .ok files' => (afterWriting o progress.report w (.ok ()), files')
    | .error fault => (afterWriting o progress.report w (.error fault), files)

/-- The command with these arguments on these files. -/
def run (arguments : List String) (stdin : ByteArray) (files : Files) : Report × Files :=
  match Options.ofArguments arguments with
  | .error stop => (stop.report, files)
  | .ok o => perform o stdin files

end Command
end SyntaxGraph
