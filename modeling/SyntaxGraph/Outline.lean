/-
# The outline of a program

One line for each function, statement, declaration and type, indented by its
depth, and for each expression one line as a whole. A line starts with its
index in a list or with its role. A function has a section for each of its
lists, which says so when the list is empty.

Key definitions: `Line`, `Lead`, `Program.outline`, `Program.outlineText`.
-/
import SyntaxGraph.Text.Lines
import SyntaxGraph.Tree.Inline
import SyntaxGraph.Tree.Node

namespace SyntaxGraph

/-- What a line starts with. -/
inductive Lead where
  | nothing
  /-- The place in a list, from zero. -/
  | member (index : Nat)
  | role (r : Role)
  deriving DecidableEq, Repr

/-- The start of a line. -/
def Lead.text : Lead → String
  | nothing => ""
  | member i => "[" ++ Decimal.natText i ++ "] "
  | role r => r.text ++ ": "

/-- A line of the outline. -/
structure Line where
  depth : Nat
  lead : Lead
  content : String
  deriving DecidableEq, Repr

/-- The line with two spaces of indentation for each level of depth. -/
def Line.text (l : Line) : String :=
  String.ofList (List.replicate (2 * l.depth) ' ') ++ l.lead.text ++ l.content

/-- The outline of an expression: one line. -/
def Expr.outline (depth : Nat) (lead : Lead) (e : Expr) : List Line :=
  [⟨depth, lead, e.inlineText⟩]

mutual

/-- The outline of a statement. -/
def Stmt.outline (depth : Nat) (lead : Lead) (s : Stmt) : List Line :=
  ⟨depth, lead, (Element.statement s).label⟩ :: match s with
    | .print _ | .leave | .skip => []
    | .assign l e | .update _ l e =>
      l.outline (depth + 1) (.role .location) ++ e.outline (depth + 1) (.role .expr)
    | .ifThen c s =>
      c.outline (depth + 1) (.role .condition) ++ s.outline (depth + 1) (.role .thenBranch)
    | .ifThenElse c s t =>
      c.outline (depth + 1) (.role .condition) ++ s.outline (depth + 1) (.role .thenBranch) ++
        t.outline (depth + 1) (.role .elseBranch)
    | .whileDo c s =>
      c.outline (depth + 1) (.role .condition) ++ s.outline (depth + 1) (.role .loopBody)
    | .read l => l.outline (depth + 1) (.role .location)
    | .write e | .ret e => e.outline (depth + 1) (.role .expr)
    | .block ss => Stmt.outlines (depth + 1) (fun i => .role (.statement i)) 0 ss

/-- The outlines of statements in a list, the first of which has the index
`i`. -/
def Stmt.outlines (depth : Nat) (lead : Nat → Lead) (i : Nat) : List Stmt → List Line
  | [] => []
  | s :: ss => s.outline depth (lead i) ++ Stmt.outlines depth lead (i + 1) ss

end

/-- The outline of a type. -/
def TypeName.outline (depth : Nat) (lead : Lead) (t : TypeName) : List Line :=
  ⟨depth, lead, (Element.typeName t).label⟩ :: match t.size with
    | some e => e.outline (depth + 1) (.role .size)
    | none => []

/-- The outline of a parameter. -/
def Declaration.parameterOutline (depth : Nat) (lead : Lead) (d : Declaration) : List Line :=
  ⟨depth, lead, (Element.parameter d).label⟩ :: d.type.outline (depth + 1) (.role .type)

/-- The outline of a local declaration. -/
def Declaration.localOutline (depth : Nat) (lead : Lead) (d : Declaration) : List Line :=
  ⟨depth, lead, (Element.declaration d).label⟩ :: d.type.outline (depth + 1) (.role .type)

/-- A section for the members of a list, whose outlines are given. -/
def outlineSection (title : String) : List (List Line) → List Line
  | [] => [⟨2, .nothing, title ++ ": (none)"⟩]
  | members => ⟨2, .nothing, title ++ ":"⟩ :: members.flatten

/-- The outline of a function. -/
def Function.outline (index : Nat) (f : Function) : List Line :=
  ⟨1, .member index, (Element.function f).label⟩ ::
    outlineSection "parameters" (f.parameters.mapIdx fun i d => d.parameterOutline 3 (.member i)) ++
    outlineSection "declarations" (f.declarations.mapIdx fun i d => d.localOutline 3 (.member i)) ++
    outlineSection "body" (f.body.mapIdx fun i s => s.outline 3 (.member i))

/-- The outline of a program. -/
def Program.outline (p : Program) : List Line :=
  ⟨0, .nothing, (Element.program p).label⟩ ::
    (p.functions.mapIdx fun i f => f.outline i).flatten

/-- The outline as text. -/
def Program.outlineText (p : Program) : String :=
  Text.unlines (p.outline.map Line.text)

end SyntaxGraph
