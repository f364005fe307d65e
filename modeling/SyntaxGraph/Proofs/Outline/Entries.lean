/-
# An outline as a tree of entries

An entry is a line without its indentation, with the entries that are indented
below it. The lines of entries with their depths tell the entries: those below an
entry are the lines up to the next one that is no deeper.

The outline of a program is the lines of one entry.

Key definitions: `Entry`, `Entry.lines`, `Line.shown`, `Program.entry`.
Key theorems: `Entry.linesAll_inj`, `Program.shown_outline`.
-/
import SyntaxGraph.Outline
import SyntaxGraph.Proofs.Text.Delimited
import SyntaxGraph.Proofs.Tree.Preorder

namespace SyntaxGraph

/-! ### Entries -/

/-- A line without its indentation, and the entries below it. -/
inductive Entry where
  | mk (text : String) (below : List Entry)

namespace Entry

mutual

/-- The lines of an entry with their depths. -/
def lines (depth : Nat) : Entry → List (Nat × String)
  | mk text below => (depth, text) :: linesAll (depth + 1) below

/-- The lines of all the entries in turn. -/
def linesAll (depth : Nat) : List Entry → List (Nat × String)
  | [] => []
  | e :: es => e.lines depth ++ linesAll depth es

end

theorem linesAll_eq_flatMap (depth : Nat) (es : List Entry) :
    linesAll depth es = es.flatMap (lines depth) := by
  induction es with
  | nil => rfl
  | cons e es ih => rw [linesAll, ih, List.flatMap_cons]

theorem le_of_mem_linesAll {depth : Nat} : ∀ {es : List Entry}, ∀ l ∈ linesAll depth es, depth ≤ l.1
  | [], _, hl => nomatch hl
  | mk text below :: es, l, hl => by
    rcases List.mem_append.mp hl with hl | hl
    · rcases List.mem_cons.mp hl with rfl | hl
      · exact Nat.le_refl depth
      · exact Nat.le_of_succ_le (le_of_mem_linesAll l hl)
    · exact le_of_mem_linesAll l hl

/-- Entries start with a line that is no deeper than they are. -/
theorem head_linesAll (depth : Nat) (es : List Entry) :
    (linesAll depth es).head?.any (fun l => decide (depth < l.1)) = false := by
  match es with
  | [] => rfl
  | mk text below :: es => exact decide_eq_false (Nat.lt_irrefl depth)

/-- Lines with their depths tell the entries. -/
theorem linesAll_inj : ∀ {es fs : List Entry} {depth : Nat},
    linesAll depth es = linesAll depth fs → es = fs
  | [], [], _, _ => rfl
  | [], mk _ _ :: _, _, h => nomatch h
  | mk _ _ :: _, [], _, h => nomatch h
  | mk text below :: es, mk text' below' :: fs, depth, h => by
    have hdeeper : ∀ es : List Entry, ∀ l ∈ linesAll (depth + 1) es, decide (depth < l.1) = true :=
      fun es l hl => decide_eq_true (le_of_mem_linesAll l hl)
    obtain ⟨hhead, htail⟩ := List.cons.inj h
    -- the lines below the first entry are deeper than it, and the line behind them is not
    obtain ⟨hbelow, hrest⟩ := run_append_inj (hdeeper below) (hdeeper below') (head_linesAll depth es)
      (head_linesAll depth fs) htail
    rw [(Prod.mk.inj hhead).2, linesAll_inj hbelow, linesAll_inj hrest]

theorem lines_inj {e f : Entry} {depth : Nat} (h : e.lines depth = f.lines depth) : e = f := by
  have hall : linesAll depth [e] = linesAll depth [f] := by
    rw [linesAll, linesAll, h]
    rfl
  exact (List.cons.inj (linesAll_inj hall)).1

end Entry

/-! ### The entries of a program -/

/-- The entry of an expression. -/
def Expr.entryAs (lead : Lead) (e : Expr) : Entry :=
  .mk (lead.text ++ e.inlineText) []

/-- The entry of an element with the entries below it. -/
def Element.entry (lead : Lead) (x : Element) (below : List Entry) : Entry :=
  .mk (lead.text ++ x.label) below

mutual

/-- The entry of a statement. -/
def Stmt.entry (lead : Lead) (s : Stmt) : Entry :=
  (Element.statement s).entry lead <| match s with
    | .print _ | .leave | .skip => []
    | .assign l e | .update _ l e => [l.entryAs (.role .location), e.entryAs (.role .expr)]
    | .ifThen c s => [c.entryAs (.role .condition), s.entry (.role .thenBranch)]
    | .ifThenElse c s t =>
      [c.entryAs (.role .condition), s.entry (.role .thenBranch), t.entry (.role .elseBranch)]
    | .whileDo c s => [c.entryAs (.role .condition), s.entry (.role .loopBody)]
    | .read l => [l.entryAs (.role .location)]
    | .write e | .ret e => [e.entryAs (.role .expr)]
    | .block ss => Stmt.entries (fun i => .role (.statement i)) 0 ss

/-- The entries of statements in a list, the first of which has the index `i`. -/
def Stmt.entries (lead : Nat → Lead) (i : Nat) : List Stmt → List Entry
  | [] => []
  | s :: ss => s.entry (lead i) :: Stmt.entries lead (i + 1) ss

end

/-- The entries below a statement. -/
def Stmt.entriesBelow : Stmt → List Entry
  | print _ | leave | skip => []
  | assign l e | update _ l e => [l.entryAs (.role .location), e.entryAs (.role .expr)]
  | ifThen c s => [c.entryAs (.role .condition), s.entry (.role .thenBranch)]
  | ifThenElse c s t =>
    [c.entryAs (.role .condition), s.entry (.role .thenBranch), t.entry (.role .elseBranch)]
  | whileDo c s => [c.entryAs (.role .condition), s.entry (.role .loopBody)]
  | read l => [l.entryAs (.role .location)]
  | write e | ret e => [e.entryAs (.role .expr)]
  | block ss => ss.mapIdx fun i s => s.entry (.role (.statement i))

theorem Stmt.entries_eq (lead : Nat → Lead) (ss : List Stmt) :
    entries lead 0 ss = ss.mapIdx fun k s => s.entry (lead k) :=
  eq_mapIdx_of_counting (fun _ => rfl) (fun _ _ _ => rfl) ss

theorem Stmt.entry_eq (lead : Lead) (s : Stmt) :
    s.entry lead = (Element.statement s).entry lead s.entriesBelow := by
  cases s with
  | block ss =>
    rw [entry, entriesBelow, entries_eq]
  | _ => rfl

/-- The entry of a type. -/
def TypeName.entry (lead : Lead) (t : TypeName) : Entry :=
  (Element.typeName t).entry lead (t.size.toList.map (Expr.entryAs (.role .size)))

/-- The entry of a parameter or a local declaration, shown as the given element. -/
def Declaration.entry (shownAs : Declaration → Element) (lead : Lead) (d : Declaration) : Entry :=
  (shownAs d).entry lead [d.type.entry (.role .type)]

/-- The entry of a section with its members. -/
def Entry.ofSection (title : String) (members : List Entry) : Entry :=
  .mk (if members.isEmpty then title ++ ": (none)" else title ++ ":") members

/-- The entry of a function. -/
def Function.entry (index : Nat) (f : Function) : Entry :=
  (Element.function f).entry (.member index)
    [.ofSection "parameters" (f.parameters.mapIdx fun i d => d.entry .parameter (.member i)),
      .ofSection "declarations" (f.declarations.mapIdx fun i d => d.entry .declaration (.member i)),
      .ofSection "body" (f.body.mapIdx fun i s => s.entry (.member i))]

/-- The entry of a program. -/
def Program.entry (p : Program) : Entry :=
  (Element.program p).entry .nothing (p.functions.mapIdx fun i f => f.entry i)

/-! ### Outlines -/

/-- What a line shows: its depth, and the text behind the indentation. -/
def Line.shown (l : Line) : Nat × String :=
  (l.depth, l.lead.text ++ l.content)

open Line (shown)

mutual

theorem Stmt.shown_outline (depth : Nat) (lead : Lead) :
    ∀ s : Stmt, (s.outline depth lead).map shown = (s.entry lead).lines depth
  | .print _ | .leave | .skip | .read _ | .write _ | .ret _ | .assign .. | .update .. => rfl
  | .ifThen c s | .whileDo c s => by
    have hs := s.shown_outline
    simp [outline, entry, Element.entry, Entry.lines, Entry.linesAll, Expr.outline, Expr.entryAs,
      shown, hs]
  | .ifThenElse c s t => by
    have hs := s.shown_outline
    have ht := t.shown_outline
    simp [outline, entry, Element.entry, Entry.lines, Entry.linesAll, Expr.outline, Expr.entryAs,
      shown, hs, ht]
  | .block ss => by
    rw [outline, List.map_cons, shown_outlines]
    rfl

theorem Stmt.shown_outlines (depth : Nat) (lead : Nat → Lead) (i : Nat) :
    ∀ ss : List Stmt, (Stmt.outlines depth lead i ss).map shown =
      Entry.linesAll depth (Stmt.entries lead i ss)
  | [] => rfl
  | s :: ss => by
    rw [outlines, List.map_append, s.shown_outline, shown_outlines depth lead (i + 1) ss]
    rfl

end

theorem shown_flatten_mapIdx {α : Type} {outline : Nat → α → List Line} {entry : Nat → α → Entry}
    {depth : Nat} (h : ∀ i a, (outline i a).map shown = (entry i a).lines depth) (as : List α) :
    (as.mapIdx outline).flatten.map shown = Entry.linesAll depth (as.mapIdx entry) := by
  have hlines :
      (as.mapIdx outline).map (List.map shown) = (as.mapIdx entry).map (Entry.lines depth) := by
    refine List.ext_getElem (by simp) fun i hi _ => ?_
    simp [h]
  rw [List.map_flatten, hlines, Entry.linesAll_eq_flatMap]
  rfl

theorem TypeName.shown_outline (depth : Nat) (lead : Lead) (t : TypeName) :
    (t.outline depth lead).map shown = (t.entry lead).lines depth := by
  obtain ⟨base, _ | e⟩ := t <;> rfl

theorem Declaration.shown_parameterOutline (depth : Nat) (lead : Lead) (d : Declaration) :
    (d.parameterOutline depth lead).map shown = (d.entry .parameter lead).lines depth := by
  rw [parameterOutline, List.map_cons, TypeName.shown_outline]
  simp [entry, Element.entry, Entry.lines, Entry.linesAll, shown]

theorem Declaration.shown_localOutline (depth : Nat) (lead : Lead) (d : Declaration) :
    (d.localOutline depth lead).map shown = (d.entry .declaration lead).lines depth := by
  rw [localOutline, List.map_cons, TypeName.shown_outline]
  simp [entry, Element.entry, Entry.lines, Entry.linesAll, shown]

theorem shown_outlineSection {α : Type} {outline : Nat → α → List Line} {entry : Nat → α → Entry}
    (h : ∀ i a, (outline i a).map shown = (entry i a).lines 3) (title : String) (as : List α) :
    (outlineSection title (as.mapIdx outline)).map shown =
      (Entry.ofSection title (as.mapIdx entry)).lines 2 := by
  have hmembers := shown_flatten_mapIdx h as
  cases as with
  | nil => simp [outlineSection, Entry.ofSection, Entry.lines, Entry.linesAll, shown, Lead.text]
  | cons a as =>
    rw [List.mapIdx_cons] at hmembers ⊢
    rw [outlineSection, List.map_cons, hmembers]
    · simp [Entry.ofSection, Entry.lines, shown, Lead.text]
    · nofun

theorem Function.shown_outline (index : Nat) (f : Function) :
    (f.outline index).map shown = (f.entry index).lines 1 := by
  rw [outline, List.map_append, List.map_append, List.map_cons,
    shown_outlineSection fun i d => Declaration.shown_parameterOutline 3 (.member i) d,
    shown_outlineSection fun i d => Declaration.shown_localOutline 3 (.member i) d,
    shown_outlineSection fun i s => Stmt.shown_outline 3 (.member i) s]
  simp [entry, Element.entry, Entry.lines, Entry.linesAll, shown]

/-- The outline of a program is the lines of its entry. -/
theorem Program.shown_outline (p : Program) : p.outline.map shown = p.entry.lines 0 := by
  rw [outline, List.map_cons, shown_flatten_mapIdx Function.shown_outline]
  rfl

end SyntaxGraph
