/-
# A run of the command, step by step

The command reads its source, parses it, shows the outline, builds the graph, shows it, and
writes it, and it may fail at any of these steps. What has been shown by then stays shown,
and a message about the failure is added.

The renderers never fail on a program, so all that can fail before anything is shown is the
reading and the parsing, and behind that the writing. Therefore the steps come to what is
known once the source has been read and once the file has been written (`conduct_eq`).

The files of a machine are a parameter: how they are read and written is all that the command
can see of them.

Key definitions: `FileSystem`, `Session`, `Command.session`, `Command.conduct`,
`Files.system`.
Key theorems: `Program.print_eq_outlineText`, `Command.conduct_eq`, `Command.outputs_agree`.
-/
import SyntaxGraph.Command.Run
import SyntaxGraph.Proofs.Action
import SyntaxGraph.Proofs.Command.Files
import SyntaxGraph.Proofs.Graph.Builder
import SyntaxGraph.Proofs.Outline.Printer
import SyntaxGraph.Proofs.Token.Tiling
import SyntaxGraph.Tree.Same

namespace SyntaxGraph

/-- The printer never fails on a program. -/
theorem Program.print_eq_outlineText (p : Program) : p.print = .ok p.outlineText := by
  have htext : p.outlineText = Printer.text (p.entry.lines 0) := by
    rw [outlineText, ← Printer.text_shown, Program.shown_outline]
  rw [Program.print, Printer.prints_program p ⟨"", 0, none⟩, htext, Program.entry, Element.entry]
  simp [Printer.opening, Lead.text]

namespace Command

/-! ### Sessions -/

/-- Files as the command sees them, in a state `σ`. A write that fails may leave any state. -/
structure FileSystem (σ : Type) where
  read : σ → String → Except Fault ByteArray
  write : σ → String → ByteArray → Except Fault Unit × σ

/-- What has been shown so far, and the state of the files. -/
structure Console (σ : Type) where
  stdout : String
  stderr : String
  files : σ

/-- Steps of the command. A failure is a message. -/
abbrev Session (σ α : Type) :=
  Action String (Console σ) α

section

variable {σ ε α : Type}

/-- Shows a text. -/
def print (text : String) : Session σ Unit :=
  modify fun c => ⟨c.stdout ++ text, c.stderr, c.files⟩

/-- Shows a progress message, if they are asked for. -/
def log (o : Options) (message : String) : Session σ Unit :=
  modify fun c => ⟨c.stdout, c.stderr ++ note o message, c.files⟩

/-- The result of something, or a failure in words. -/
def orFail (message : ε → String) : Except ε α → Session σ α
  | .ok a => pure a
  | .error e => throw (message e)

/-- The outline, below a header if the graph is shown too. -/
def showOutline (o : Options) (p : Program) : Session σ Unit := do
  if !o.noOutline then
    let outline ← orFail Unsupported.message p.print
    if !o.noGraph then print (header "AST")
    print outline

/-- The graph, below a header if the outline is shown too. -/
def showGraph (o : Options) (dot : String) : Session σ Unit := do
  if !o.noGraph then
    if !o.noOutline then
      print "\n"
      print (header "Graph")
    print dot

variable (fs : FileSystem σ) (o : Options)

/-- The bytes of the source. -/
def FileSystem.fetch (stdin : Except Fault ByteArray) (s : σ) : Except Fault ByteArray :=
  match source o with
  | .standardInput => stdin
  | .file path => fs.read s path

/-- The text of the source. -/
def readSource (stdin : Except Fault ByteArray) : Session σ String := do
  let bytes := fs.fetch o stdin (← get).files
  orFail (fun fault => (source o).failure ++ ": " ++ fault.message) (bytes.bind decode)

/-- Writes a text to a file. -/
def writeFile (path contents : String) : Session σ Unit := do
  let c ← get
  let result := fs.write c.files path contents.toUTF8
  set (⟨c.stdout, c.stderr, result.2⟩ : Console σ)
  orFail (fun fault => "failed to write '" ++ path ++ "': " ++ fault.message) result.1

/-- Writes the graph, if a file is given for it. -/
def storeGraph (dot : String) : Session σ Unit :=
  match o.output with
  | some path => do
    writeFile fs path dot
    log o ("Wrote " ++ path)
  | none => pure ()

/-- The graph of a program is built, shown and written. -/
def drawGraph (p : Program) : Session σ Unit := do
  let graph ← orFail Unsupported.message p.buildGraph
  log o ("Rendered graph with " ++ Decimal.natText graph.vertices.size ++ " nodes and " ++
    Decimal.natText graph.edges.size ++ " edges.")
  let dot := graph.dot o.dotOptions
  showGraph o dot
  storeGraph fs o dot

/-- A whole run. There is no graph to be drawn if it is neither shown nor written. -/
def session (stdin : Except Fault ByteArray) : Session σ Unit := do
  let text ← readSource fs o stdin
  let name := (source o).name
  log o ("Parsing " ++ name ++ "...")
  let p ← orFail (fun e => "failed to parse " ++ name ++ ": " ++ ParseError.message e)
    (parseSource text)
  log o ("Parsed successfully. Found " ++ Decimal.natText p.functions.length ++
    " function definitions.")
  showOutline o p
  if o.noGraph && o.output.isNone then pure () else drawGraph fs o p

/-- What a run shows, its exit code, and the files then. -/
def conduct (stdin : Except Fault ByteArray) (s : σ) : Report × σ :=
  match (session fs o stdin).exec ⟨"", "", s⟩ with
  | (.ok (), c) => (⟨0, c.stdout, c.stderr⟩, c.files)
  | (.error message, c) => (⟨1, c.stdout, c.stderr ++ errorLine message⟩, c.files)

end

/-! ### What the steps come to -/

section

variable {σ ε α β : Type} {o : Options} {c : Console σ}

@[simp] theorem exec_print (text : String) :
    (print text).exec c = (.ok (), ⟨c.stdout ++ text, c.stderr, c.files⟩) := rfl

@[simp] theorem exec_log (message : String) :
    (log o message).exec c = (.ok (), ⟨c.stdout, c.stderr ++ note o message, c.files⟩) := rfl

theorem exec_showOutline (p : Program) : (showOutline o p).exec c = (.ok (),
    ⟨c.stdout ++ (if o.noOutline then "" else
      (if o.noGraph then "" else header "AST") ++ p.outlineText), c.stderr, c.files⟩) := by
  rw [showOutline, p.print_eq_outlineText]
  cases o.noOutline <;> cases o.noGraph <;>
    simp [orFail, Action.exec_bind, String.append_assoc]

theorem exec_showGraph (dot : String) : (showGraph o dot).exec c = (.ok (),
    ⟨c.stdout ++ (if o.noGraph then "" else
      (if o.noOutline then "" else "\n" ++ header "Graph") ++ dot), c.stderr, c.files⟩) := by
  rw [showGraph]
  cases o.noOutline <;> cases o.noGraph <;> simp [Action.exec_bind, String.append_assoc]

variable {fs : FileSystem σ}

theorem exec_readSource (stdin : Except Fault ByteArray) :
    (readSource fs o stdin).exec c = match (fs.fetch o stdin c.files).bind decode with
      | .ok text => (.ok text, c)
      | .error fault => (.error ((source o).failure ++ ": " ++ fault.message), c) := by
  show (orFail _ ((fs.fetch o stdin c.files).bind decode) : Session σ String).exec c = _
  cases (fs.fetch o stdin c.files).bind decode <;> rfl

theorem exec_writeFile (path contents : String) :
    (writeFile fs path contents).exec c = ((fs.write c.files path contents.toUTF8).1.mapError
        fun fault => "failed to write '" ++ path ++ "': " ++ fault.message,
      ⟨c.stdout, c.stderr, (fs.write c.files path contents.toUTF8).2⟩) := by
  show (orFail _ (fs.write c.files path contents.toUTF8).1 : Session σ Unit).exec _ = _
  cases (fs.write c.files path contents.toUTF8).1 <;> rfl

theorem exec_drawGraph (p : Program) : (drawGraph fs o p).exec c =
    (storeGraph fs o (p.graph.dot o.dotOptions)).exec
      ⟨c.stdout ++ (if o.noGraph then "" else
          (if o.noOutline then "" else "\n" ++ header "Graph") ++ p.graph.dot o.dotOptions),
        c.stderr ++ note o ("Rendered graph with " ++ Decimal.natText p.graph.vertices.size ++
          " nodes and " ++ Decimal.natText p.graph.edges.size ++ " edges."), c.files⟩ := by
  rw [drawGraph, p.buildGraph_eq]
  simp only [orFail, pure_bind, Action.exec_bind, exec_log, exec_showGraph]

/-- What is shown by the time that a program has been rendered. -/
theorem sections_eq (outline dot : String) : sections o outline dot =
    (if o.noOutline then "" else (if o.noGraph then "" else header "AST") ++ outline) ++
      (if o.noGraph then "" else (if o.noOutline then "" else "\n" ++ header "Graph") ++ dot) := by
  rw [sections]
  cases o.noOutline <;> cases o.noGraph <;> simp [String.append_assoc]

/-- A run with what is known once the source has been read and once the file has been
written. -/
def performOn (fs : FileSystem σ) (o : Options) (stdin : Except Fault ByteArray) (s : σ) :
    Report × σ :=
  let progress := afterReading o (fs.fetch o stdin s)
  match progress.writing with
  | none => (progress.report, s)
  | some w =>
    let result := fs.write s w.path w.contents.toUTF8
    (afterWriting o progress.report w result.1, result.2)

/-- The steps come to what is known after the reading and after the writing. -/
theorem conduct_eq (fs : FileSystem σ) (o : Options) (stdin : Except Fault ByteArray) (s : σ) :
    conduct fs o stdin s = performOn fs o stdin s := by
  rw [conduct, performOn, session, afterReading]
  cases hread : (fs.fetch o stdin s).bind decode with
  | error fault =>
    rw [Action.exec_bind_of_error (by rw [exec_readSource, hread])]
    simp [failed]
  | ok text =>
    rw [Action.exec_bind_of_ok (by rw [exec_readSource, hread])]
    simp only [Action.exec_bind, exec_log, withText]
    cases parseSource text with
    | error e => simp [orFail, failed]
    | ok p =>
      simp only [orFail, Action.exec_pure, exec_showOutline, withProgram, sections_eq]
      cases houtput : o.output with
      | none =>
        cases hgraph : o.noGraph with
        | true => simp
        | false => simp [exec_drawGraph, storeGraph, houtput, hgraph, String.append_assoc]
      | some path =>
        have hdraw : (o.noGraph && (some path).isNone) = false := Bool.and_false _
        simp only [hdraw, Bool.false_eq_true, if_false, exec_drawGraph, storeGraph, houtput,
          Action.exec_bind, exec_writeFile, Option.map_some, afterWriting]
        cases (fs.write s path (p.graph.dot o.dotOptions).toUTF8).1 with
        | error fault => simp [Except.mapError, String.append_assoc]
        | ok _ => simp [Except.mapError, String.append_assoc]

end

/-! ### The source -/

theorem fetch_of_path {σ : Type} (fs : FileSystem σ) {o : Options} (stdin : Except Fault ByteArray)
    (s : σ) {path : String} (hfile : o.file = some path) (hpath : path ≠ "-") :
    fs.fetch o stdin s = fs.read s path := by
  rw [FileSystem.fetch, source, hfile]
  simp only [if_neg hpath]

theorem fetch_of_standardInput {σ : Type} (fs : FileSystem σ) {o : Options}
    (stdin : Except Fault ByteArray) (s : σ) (h : o.file = none ∨ o.file = some "-") :
    fs.fetch o stdin s = stdin := by
  rcases h with hfile | hfile
  · rw [FileSystem.fetch, source, hfile]
  · rw [FileSystem.fetch, source, hfile]
    rfl

theorem bind_decode_of_none {input : Except Fault ByteArray} {bytes : ByteArray}
    (hinput : input = .ok bytes) (htext : String.fromUTF8? bytes = none) :
    input.bind decode = .error .notText := by
  rw [hinput, Except.bind, decode, htext]
  rfl

theorem bind_decode_of_some {input : Except Fault ByteArray} {bytes : ByteArray} {text : String}
    (hinput : input = .ok bytes) (htext : String.fromUTF8? bytes = some text) :
    input.bind decode = .ok text := by
  rw [hinput, Except.bind, decode, htext]
  rfl

theorem fromUTF8?_toUTF8 (text : String) : String.fromUTF8? text.toUTF8 = some text :=
  dif_pos text.isValidUTF8

/-! ### Outcomes -/

/-- Files with their places, as a file system. A write that fails leaves them as they are. -/
def Files.system : FileSystem Files where
  read := Files.read
  write files path contents :=
    match files.write path contents with
    | .ok files' => (.ok (), files')
    | .error fault => (.error fault, files)

theorem perform_eq (o : Options) (stdin : ByteArray) (files : Files) :
    perform o stdin files = performOn Files.system o (.ok stdin) files := by
  have hfetch : Files.system.fetch o (.ok stdin) files = match source o with
      | .standardInput => .ok stdin
      | .file path => files.read path := rfl
  rw [perform, performOn, hfetch]
  dsimp only
  generalize afterReading o _ = progress
  obtain ⟨report, _ | w⟩ := progress
  · rfl
  · dsimp only [Files.system]
    cases files.write w.path w.contents.toUTF8 <;> rfl

/-- The writing makes no difference to what is shown. -/
theorem stdout_afterWriting (o : Options) (r : Report) (w : Writing) (result : Except Fault Unit) :
    (afterWriting o r w result).stdout = r.stdout := by
  cases result <;> rfl

theorem conduct_of_parseSource {σ : Type} {fs : FileSystem σ} {o : Options}
    {stdin : Except Fault ByteArray} {s : σ} {text : String} {p : Program}
    (hread : (fs.fetch o stdin s).bind decode = .ok text) (hparse : parseSource text = .ok p) :
    ∃ said, conduct fs o stdin s = match o.output with
      | none => (⟨0, sections o p.outlineText (p.graph.dot o.dotOptions), said⟩, s)
      | some path =>
        let dot := p.graph.dot o.dotOptions
        let result := fs.write s path dot.toUTF8
        (afterWriting o ⟨0, sections o p.outlineText dot, said⟩ ⟨path, dot⟩ result.1,
          result.2) := by
  obtain ⟨said, hprogram⟩ : ∃ said, withText o text =
      ⟨⟨0, sections o p.outlineText (p.graph.dot o.dotOptions), said⟩,
        o.output.map fun path => ⟨path, p.graph.dot o.dotOptions⟩⟩ := by
    rw [withText, hparse]
    exact ⟨_, rfl⟩
  refine ⟨said, ?_⟩
  rw [conduct_eq, performOn, afterReading, hread]
  dsimp only
  rw [hprogram]
  cases o.output with
  | none => rfl
  | some path => simp only [Option.map_some]

/-- A run with nothing to show for it: standard output is empty, the files are as they
were, and the exit code is 1. -/
def FailsCleanly {σ : Type} (s : σ) (run : Report × σ) : Prop :=
  run.1.stdout = "" ∧ run.2 = s ∧ run.1.code = 1

section

variable {σ : Type} {fs : FileSystem σ} {o : Options} {stdin : Except Fault ByteArray} {s : σ}

theorem failsCleanly_unreadable {fault : Fault}
    (hread : (fs.fetch o stdin s).bind decode = .error fault) :
    FailsCleanly s (conduct fs o stdin s) := by
  rw [conduct_eq, performOn, afterReading, hread]
  exact ⟨rfl, rfl, rfl⟩

theorem failsCleanly_unparsed {text : String} {e : ParseError}
    (hread : (fs.fetch o stdin s).bind decode = .ok text) (hparse : parseSource text = .error e) :
    FailsCleanly s (conduct fs o stdin s) := by
  rw [conduct_eq, performOn, afterReading, hread]
  dsimp only
  rw [withText, hparse]
  exact ⟨rfl, rfl, rfl⟩

variable {text : String} {p : Program} (hread : (fs.fetch o stdin s).bind decode = .ok text)
  (hparse : parseSource text = .ok p)

include hread hparse

/-- The options say which sections are shown, and whether under headers. -/
theorem stdout_conduct : (conduct fs o stdin s).1.stdout =
    match o.noOutline, o.noGraph with
    | true, true => ""
    | true, false => p.graph.dot o.dotOptions
    | false, true => p.outlineText
    | false, false => header "AST" ++ p.outlineText ++ "\n" ++ header "Graph" ++
        p.graph.dot o.dotOptions := by
  obtain ⟨said, hrun⟩ := conduct_of_parseSource hread hparse
  have hshown : (conduct fs o stdin s).1.stdout =
      sections o p.outlineText (p.graph.dot o.dotOptions) := by
    rw [hrun]
    cases o.output with
    | none => rfl
    | some path => exact stdout_afterWriting ..
  rw [hshown, sections]
  cases o.noOutline <;> cases o.noGraph <;> simp

theorem conduct_of_output_eq_none (houtput : o.output = none) :
    (conduct fs o stdin s).2 = s ∧ (conduct fs o stdin s).1.code = 0 := by
  obtain ⟨said, hrun⟩ := conduct_of_parseSource hread hparse
  rw [hrun, houtput]
  exact ⟨rfl, rfl⟩

theorem conduct_of_output_eq_some {path : String} (houtput : o.output = some path)
    {written : Except Fault Unit × σ}
    (hwrite : fs.write s path (p.graph.dot o.dotOptions).toUTF8 = written) :
    (conduct fs o stdin s).2 = written.2 ∧
      (written.1 = .ok () → (conduct fs o stdin s).1.code = 0) ∧
      ∀ fault, written.1 = .error fault → (conduct fs o stdin s).1.code = 1 := by
  obtain ⟨said, hrun⟩ := conduct_of_parseSource hread hparse
  obtain ⟨result, s'⟩ := written
  rw [hrun, houtput]
  dsimp only
  rw [hwrite]
  refine ⟨rfl, ?_, fun fault => ?_⟩
  · rintro rfl
    rfl
  · rintro rfl
    rfl

end

theorem system_write_eq_ok {files files' : Files} {path : String} {contents : ByteArray}
    (h : Files.system.write files path contents = (.ok (), files')) :
    files.write path contents = .ok files' := by
  dsimp only [Files.system] at h
  cases hfile : files.write path contents with
  | error fault => rw [hfile] at h; cases h
  | ok written =>
    rw [hfile] at h
    exact congrArg Except.ok (Prod.mk.inj h).2

/-- **The command fails cleanly, and its outputs agree.** The source is the file that is named,
and standard input if none is or its name is `-`. If the source cannot be read, is no text or
does not parse, nothing is shown on standard output and the files stay as they are. If it
parses, the outline and the graph are what the renderers make of the program, and the options
say which of them are shown, and whether under headers. A file that is asked for gets the text
of the graph whatever else is asked for, nothing else is written, and the exit code is 0
unless that fails, which makes no difference to what is shown. On files with places, what is
written can be read from the path, and all other places hold what they held. -/
theorem outputs_agree {σ : Type} (fs : FileSystem σ) (o : Options)
    (stdin : Except Fault ByteArray) (s : σ) :
    (∀ path, o.file = some path → path ≠ "-" → fs.fetch o stdin s = fs.read s path) ∧
    (o.file = none ∨ o.file = some "-" → fs.fetch o stdin s = stdin) ∧
    (∀ fault, fs.fetch o stdin s = .error fault → FailsCleanly s (conduct fs o stdin s)) ∧
    (∀ bytes, fs.fetch o stdin s = .ok bytes → String.fromUTF8? bytes = none →
      FailsCleanly s (conduct fs o stdin s)) ∧
    (∀ bytes text e, fs.fetch o stdin s = .ok bytes → String.fromUTF8? bytes = some text →
      parseSource text = .error e → FailsCleanly s (conduct fs o stdin s)) ∧
    (∀ bytes text p, fs.fetch o stdin s = .ok bytes → String.fromUTF8? bytes = some text →
      parseSource text = .ok p →
      ∃ outline graph dot, p.print = .ok outline ∧ p.buildGraph = .ok graph ∧
        dot = graph.dot ⟨o.graphName.getD "AST", !o.noEdgeLabels⟩ ∧
        (conduct fs o stdin s).1.stdout = (match o.noOutline, o.noGraph with
          | true, true => ""
          | true, false => dot
          | false, true => outline
          | false, false => header "AST" ++ outline ++ "\n" ++ header "Graph" ++ dot) ∧
        (o.output = none → (conduct fs o stdin s).2 = s ∧ (conduct fs o stdin s).1.code = 0) ∧
        ∀ path, o.output = some path →
          (conduct fs o stdin s).2 = (fs.write s path dot.toUTF8).2 ∧
          ((fs.write s path dot.toUTF8).1 = .ok () → (conduct fs o stdin s).1.code = 0) ∧
          ∀ fault, (fs.write s path dot.toUTF8).1 = .error fault →
            (conduct fs o stdin s).1.code = 1) ∧
    (∀ (input : ByteArray) (files : Files),
      perform o input files = conduct Files.system o (.ok input) files) ∧
    ∀ (files files' : Files) (path : String) (contents : ByteArray),
      Files.system.write files path contents = (.ok (), files') →
      files'.read path = .ok contents ∧
        ∀ place, place ≠ (Path.ofText path).place → files'.holding place = files.holding place := by
  refine ⟨fun _ => fetch_of_path fs stdin s, fetch_of_standardInput fs stdin s,
    fun fault hinput => failsCleanly_unreadable (congrArg (·.bind decode) hinput),
    fun bytes hinput htext => failsCleanly_unreadable (bind_decode_of_none hinput htext),
    fun bytes text e hinput htext => failsCleanly_unparsed (bind_decode_of_some hinput htext),
    fun bytes text p hinput htext hparse => ?_, fun input files => ?_,
    fun files files' path contents hwrite => ?_⟩
  · have hread := bind_decode_of_some hinput htext
    exact ⟨p.outlineText, p.graph, _, p.print_eq_outlineText, p.buildGraph_eq, rfl,
      stdout_conduct hread hparse, conduct_of_output_eq_none hread hparse,
      fun path houtput => conduct_of_output_eq_some hread hparse houtput rfl⟩
  · rw [perform_eq, conduct_eq]
  · exact Files.write_spec (system_write_eq_ok hwrite)

/-- A source of one function. -/
def skipSource : String :=
  "fun f() begin skip end"

/-- The outline of the source. -/
def skipOutline : String :=
  "Program\n  [0] Function(f)\n    parameters: (none)\n    declarations: (none)\n" ++
    "    body:\n      [0] Skip\n"

/-- The graph of the source. -/
def skipDot : String :=
  "digraph \"AST\" \x7b\n    node [shape=box];\n    \"n0\" [label=\"Program\"];\n" ++
    "    \"n1\" [label=\"Function(f)\"];\n    \"n2\" [label=\"Skip\"];\n" ++
    "    \"n1\" -> \"n2\" [label=\"body[0]\"];\n" ++
    "    \"n0\" -> \"n1\" [label=\"functions[0]\"];\n\x7d\n"

/-- The source in a file, and no other file. -/
def skipFiles : Files :=
  ⟨[(.inside ["f.pl0"], skipSource.toUTF8)]⟩

/-- Both sections are shown, and the graph is written. -/
def skipOptions : Options :=
  { Options.none with file := some "f.pl0", output := some "f.dot" }

/-- A file is read and another is written, whatever is on standard input. What is asked for is
shown though the other one cannot be written. Where standard input is the source, or the file
is not there, the run fails cleanly. -/
theorem outputs_agree_on_skip :
    ((perform skipOptions "fun".toUTF8 skipFiles).1.stdout =
        "\x1b[2mAST\x1b[0m\n" ++ skipOutline ++ "\n" ++ "\x1b[2mGraph\x1b[0m\n" ++ skipDot ∧
      (perform skipOptions "fun".toUTF8 skipFiles).1.code = 0 ∧
      (perform skipOptions "fun".toUTF8 skipFiles).2.read "f.dot" = .ok skipDot.toUTF8 ∧
      (perform skipOptions "fun".toUTF8 skipFiles).2.holding (.inside ["f.pl0"]) =
        .file skipSource.toUTF8) ∧
    ((perform { skipOptions with noGraph := true, output := some "g/f.dot" } "fun".toUTF8
        skipFiles).1.stdout = skipOutline ∧
      (perform { skipOptions with noGraph := true, output := some "g/f.dot" } "fun".toUTF8
        skipFiles).1.code = 1) ∧
    FailsCleanly skipFiles
      (perform { skipOptions with file := some "-" } "fun".toUTF8 skipFiles) ∧
    FailsCleanly skipFiles
      (perform { skipOptions with file := some "g.pl0" } skipSource.toUTF8 skipFiles) := by
  have hparse : parseSource skipSource = .ok ⟨[⟨"f", [], [], [.skip]⟩]⟩ :=
    (congrArg parse (Scanner.items_eq_itemsWithin _)).trans (by decide +kernel)
  have houtline : Program.outlineText ⟨[⟨"f", [], [], [.skip]⟩]⟩ = skipOutline := by
    decide +kernel
  have hdot : (Program.graph ⟨[⟨"f", [], [], [.skip]⟩]⟩).dot ⟨"AST", true⟩ = skipDot := by
    decide +kernel
  have hbroken : parseSource "fun" =
      .error (.grammar ⟨none, .token .ident .functionName, ⟨1, 4⟩⟩) :=
    (congrArg parse (Scanner.items_eq_itemsWithin _)).trans (by decide +kernel)
  refine ⟨?_, ?_, ?_, ?_⟩
  · obtain ⟨hfile, -, -, -, -, hparses, hperform, hwrite⟩ :=
      outputs_agree Files.system skipOptions (.ok "fun".toUTF8) skipFiles
    obtain ⟨outline, graph, dot, hprint, hbuild, hgraph, hstdout, -, hpath⟩ := hparses _ _ _
      (hfile "f.pl0" rfl (by decide)) (fromUTF8?_toUTF8 skipSource) hparse
    obtain rfl := Except.ok.inj ((Program.print_eq_outlineText _).symm.trans hprint)
    obtain rfl := Except.ok.inj ((Program.buildGraph_eq _).symm.trans hbuild)
    obtain rfl : dot = skipDot := hgraph.trans hdot
    have hput : Files.system.write skipFiles "f.dot" skipDot.toUTF8 =
        (.ok (), skipFiles.put (.inside ["f.dot"]) skipDot.toUTF8) := rfl
    obtain ⟨hfiles, hcode, -⟩ := hpath "f.dot" rfl
    obtain ⟨hwritten, hothers⟩ := hwrite _ _ _ _ hput
    rw [hput] at hfiles hcode
    rw [hperform, hfiles, hwritten, hothers _ (by decide +kernel)]
    rw [houtline] at hstdout
    exact ⟨hstdout, hcode rfl, rfl, rfl⟩
  · obtain ⟨hfile, -, -, -, -, hparses, hperform, -⟩ := outputs_agree Files.system
      { skipOptions with noGraph := true, output := some "g/f.dot" } (.ok "fun".toUTF8) skipFiles
    obtain ⟨outline, graph, dot, hprint, -, -, hstdout, -, hpath⟩ := hparses _ _ _
      (hfile "f.pl0" rfl (by decide)) (fromUTF8?_toUTF8 skipSource) hparse
    obtain rfl := Except.ok.inj ((Program.print_eq_outlineText _).symm.trans hprint)
    rw [hperform]
    exact ⟨hstdout.trans houtline, (hpath "g/f.dot" rfl).2.2 .notFound rfl⟩
  · obtain ⟨-, hstdin, -, -, hbreaks, -, hperform, -⟩ :=
      outputs_agree Files.system { skipOptions with file := some "-" } (.ok "fun".toUTF8) skipFiles
    rw [hperform]
    exact hbreaks _ _ _ (hstdin (.inr rfl)) (fromUTF8?_toUTF8 "fun") hbroken
  · obtain ⟨hfile, -, hfails, -, -, -, hperform, -⟩ := outputs_agree Files.system
      { skipOptions with file := some "g.pl0" } (.ok skipSource.toUTF8) skipFiles
    rw [hperform]
    exact hfails .notFound (hfile "g.pl0" rfl (by decide))

end Command
end SyntaxGraph
