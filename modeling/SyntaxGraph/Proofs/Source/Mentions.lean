/-
# What a source mentions is in the graph, in its order

A source mentions names, numbers and texts: those are the tokens whose kind leaves
something open. An element mentions one of them itself or none: a function, a
declaration and what stands for a variable its name, a literal its number, and a
`print` its text.

A grammatical construct is written with its own mention first, and then with those of
what is right below it, in order. So the terminals of a program mention what its
elements do, in the order of the tree, and the vertices of the graph show the same.

Key definitions: `Mention`, `Token.mentions`, `Node.mentions`, `Grammar.Mentions`,
`Vertex.carries`.
Key theorems: `Element.mentions_eq`, `Grammar.Mentions.of_parts`, `parseSource_mentions`.
-/
import Mathlib.Data.List.Forall2
import SyntaxGraph.Proofs.Graph.Faithful
import SyntaxGraph.Proofs.Source.Spelled
import SyntaxGraph.Proofs.Token.Layout

namespace SyntaxGraph

/-! ### Mentions -/

/-- A name, a number or a text that a source gives. -/
inductive Mention where
  | name (x : String)
  | number (value : Number)
  | text (contents : String)
  deriving DecidableEq, Repr

/-- What a token of an open kind mentions, a number by its value. -/
def Mention.read (kind : Token.Kind) (text : String) : Option Mention :=
  match kind with
  | .ident => some (.name text)
  | .intLiteral => (Decimal.readInt text.toList).map fun i => .number (.int i)
  | .floatLiteral => (Decimal.readFloat text.toList).map fun x => .number (.float x)
  | .stringLiteral => some (.text text)
  | _ => none

/-- What the names, numbers and strings among tokens mention, in order. -/
def Token.mentions (ts : List Token) : List (Option Mention) :=
  (ts.filter fun t => t.kind.isOpen).map fun t => Mention.read t.kind t.text

/-- What an expression mentions itself. -/
def Expr.mention : Expr → Option Mention
  | number n => some (.number n)
  | var x | entry x _ | call x _ => some (.name x)
  | _ => none

/-- What a statement mentions itself. -/
def Stmt.mention : Stmt → Option Mention
  | print text => some (.text text)
  | _ => none

/-- What an element mentions itself. -/
def Element.mention : Element → Option Mention
  | program _ | typeName _ => none
  | function f => some (.name f.name)
  | parameter d | declaration d => some (.name d.name)
  | statement s => s.mention
  | expression e => e.mention

/-- What the nodes of a tree mention, in order. -/
def Node.mentions (n : Node) : List Mention :=
  n.nodes.filterMap fun m => m.element.mention

/-- What an element and all that is below it mention, in order. -/
def Element.mentions (x : Element) : List Mention :=
  (x.node .root).mentions

theorem Node.mentions_eq (n : Node) :
    n.mentions = n.element.mention.toList ++ n.children.flatMap mentions := by
  cases n with
  | mk role x children =>
    rw [mentions, nodes_mk, List.filterMap_cons, List.filterMap_flatMap]
    simp only [element, Node.children]
    cases x.mention <;> rfl

/-- The role makes no difference. -/
theorem Node.Proper.mentions_eq {n : Node} (hn : n.Proper) : n.mentions = n.element.mentions := by
  obtain ⟨role, x, rfl⟩ := hn
  rw [Element.mentions, Node.mentions_eq, element_node, Node.mentions_eq (x.node .root), element_node,
    children_node role]

/-- An element mentions what it mentions itself, and then what its pieces do. -/
theorem Element.mentions_eq (x : Element) :
    x.mentions = x.mention.toList ++ x.pieces.flatMap mentions := by
  have hn := Node.proper_node .root x
  rw [mentions, Node.mentions_eq, Node.element_node, ← Node.elements_children_node .root,
    List.flatMap_map]
  congr 1
  exact List.flatMap_congr fun c hc => (hn.of_mem_children hc).mentions_eq

/-! ### Terminals -/

namespace Terminal

/-- What terminals of open kinds mention, in order. -/
def mentions (xs : List Terminal) : List (Option Mention) :=
  (xs.filter fun x => x.kind.isOpen).map fun x => Mention.read x.kind x.text

@[simp] theorem mentions_nil : mentions [] = [] := rfl

@[simp] theorem mentions_append (xs ys : List Terminal) :
    mentions (xs ++ ys) = mentions xs ++ mentions ys := by
  rw [mentions, List.filter_append, List.map_append]
  rfl

@[simp] theorem mentions_word {k : Token.Kind} (hk : k.isOpen = false) (xs : List Terminal) :
    mentions (word k :: xs) = mentions xs := by
  rw [mentions, List.filter_cons_of_neg (by simp [hk])]
  rfl

@[simp] theorem mentions_ident (x : String) (xs : List Terminal) :
    mentions (ident x :: xs) = some (.name x) :: mentions xs := rfl

theorem mentions_flatMap {α : Type} (w : α → List Terminal) (as : List α) :
    mentions (as.flatMap w) = as.flatMap fun a => mentions (w a) := by
  induction as with
  | nil => rfl
  | cons a as ih => rw [List.flatMap_cons, mentions_append, ih, List.flatMap_cons]

theorem mentions_joined {k : Token.Kind} (hk : k.isOpen = false) (ws : List (List Terminal)) :
    mentions (joined k ws) = ws.flatMap mentions := by
  cases ws with
  | nil => rfl
  | cons w ws => simp only [joined, mentions_append, mentions_flatMap, mentions_word hk, List.flatMap_cons]

end Terminal

theorem Token.mentions_terminals (ts : List Token) :
    Terminal.mentions (ts.map terminal) = mentions ts := by
  have hread : ∀ t : Token, t.kind.isOpen = true →
      Mention.read t.terminal.kind t.terminal.text = Mention.read t.kind t.text := by
    intro t ht
    simp [terminal, ht]
  rw [Terminal.mentions, List.filter_map, List.map_map]
  exact List.map_congr_left fun t ht => hread t (List.mem_filter.mp ht).2

/-! ### Constructs -/

/-- The terminals mention what the element and all that is below it do. -/
def Grammar.Mentions (xs : List Terminal) (x : Element) : Prop :=
  Terminal.mentions xs = x.mentions.map some

open Grammar (Mentions)

theorem Grammar.Mentions.flatMap {parts : List (List Terminal)} {pieces : List Element}
    (h : List.Forall₂ Mentions parts pieces) :
    parts.flatMap Terminal.mentions = (pieces.flatMap Element.mentions).map some := by
  induction h with
  | nil => rfl
  | cons h _ ih => rw [List.flatMap_cons, List.flatMap_cons, List.map_append, ih, h]

/-- What is written with its own mention first, and then with its parts in order,
mentions what its element does if its parts mention what the pieces do. -/
theorem Grammar.Mentions.of_parts {xs : List Terminal} {x : Element} {parts : List (List Terminal)}
    (hxs : Terminal.mentions xs =
      x.mention.toList.map some ++ parts.flatMap Terminal.mentions)
    (hparts : List.Forall₂ Mentions parts x.pieces) : Mentions xs x := by
  rw [Mentions, hxs, Mentions.flatMap hparts, Element.mentions_eq, List.map_append]

theorem Grammar.Mentions.forall₂_map {α : Type} {w : α → List Terminal} {x : α → Element}
    {as : List α} (h : ∀ a ∈ as, Mentions (w a) (x a)) :
    List.Forall₂ Mentions (as.map w) (as.map x) :=
  List.forall₂_map_left_iff.mpr (List.forall₂_map_right_iff.mpr (List.forall₂_same.mpr h))

/-- A phrase is written with its own mention first, unless it is in parentheses. -/
theorem Phrase.mentions_yield {d : Phrase} (hd : d.Grammatical) (hparens : ∀ e, d ≠ .parens e) :
    Terminal.mentions d.yield =
      d.tree.mention.toList.map some ++ (d.inner.map yield).flatMap Terminal.mentions := by
  cases d with
  | parens e => exact absurd rfl (hparens e)
  | int text i =>
    have hread : Mention.read .intLiteral text = some (.number (.int i)) := by
      rw [Mention.read, show Decimal.readInt text.toList = some i from hd, Option.map_some]
    exact congrArg (· :: []) hread
  | float text x =>
    have hread : Mention.read .floatLiteral text = some (.number (.float x)) := by
      rw [Mention.read, show Decimal.readFloat text.toList = some x from hd, Option.map_some]
    exact congrArg (· :: []) hread
  | call f es =>
    simp (disch := decide) [yield, tree, inner, Expr.mention, Terminal.mentions_joined]
  | signed sign => cases sign <;> simp (disch := decide) [yield, tree, inner, Expr.mention, Sign.kind]
  | arith op => cases op <;> simp (disch := decide) [yield, tree, inner, Expr.mention, Arith.kind]
  | compare op =>
    cases op <;> simp (disch := decide) [yield, tree, inner, Expr.mention, Comparison.kind]
  | logical op =>
    cases op <;> simp (disch := decide) [yield, tree, inner, Expr.mention, Connective.kind]
  | var | entry | not => simp (disch := decide) [yield, tree, inner, Expr.mention]

theorem Phrase.mentions (d : Phrase) :
    d.Grammatical → Mentions d.yield (.expression d.tree) := by
  induction d using Phrase.induction with
  | step d ih =>
    intro hd
    have hinner : ∀ e ∈ d.inner, Mentions e.yield (.expression e.tree) := fun e he =>
      ih e he (hd.of_mem_inner he)
    by_cases hparens : ∃ e, d = .parens e
    · obtain ⟨e, rfl⟩ := hparens
      have hyield : Terminal.mentions (parens e).yield = Terminal.mentions e.yield := by
        simp (disch := decide) [yield]
      rw [Mentions, hyield]
      exact hinner e (List.mem_singleton_self e)
    · have hne : ∀ e, d ≠ .parens e := fun e he => hparens ⟨e, he⟩
      refine .of_parts (mentions_yield hd hne) ?_
      rw [Element.pieces, pieces_tree hne]
      exact Mentions.forall₂_map hinner

/-- A clause is written with its own mention first, then with its phrases and its clauses. -/
theorem Clause.mentions_yield (c : Clause) :
    Terminal.mentions c.yield = c.tree.mention.toList.map some ++
      (c.phrases.map Phrase.yield ++ c.inner.map yield).flatMap Terminal.mentions := by
  cases c with
  | print => rfl
  | assign update =>
    rcases update with _ | _ | _ <;>
      simp (disch := decide) [yield, tree, phrases, inner, Stmt.mention, Update.kindOf]
  | block ss =>
    simp (disch := decide) [yield, tree, phrases, inner, Stmt.mention, Terminal.mentions_joined]
  | _ => simp (disch := decide) [yield, parenthesized, tree, phrases, inner, Stmt.mention]

theorem Clause.mentions (c : Clause) : c.Grammatical → Mentions c.yield (.statement c.tree) := by
  induction c using Clause.induction with
  | step c ih =>
    intro hc
    refine .of_parts c.mentions_yield ?_
    rw [Element.pieces, pieces_tree]
    exact List.rel_append (Mentions.forall₂_map fun d hd => d.mentions (hc.of_mem_phrases hd))
      (Mentions.forall₂_map fun s hs => ih s hs (hc.of_mem_inner hs))

theorem TypePhrase.mentions {t : TypePhrase} (ht : t.Grammatical) :
    Mentions t.yield (.typeName t.tree) := by
  obtain ⟨base, _ | e⟩ := t
  · refine @Mentions.of_parts _ _ [] ?_ .nil
    cases base <;> rfl
  · refine @Mentions.of_parts _ _ [e.yield] ?_ (.cons (e.mentions (ht e rfl).2) .nil)
    cases base <;>
      simp (disch := decide) [yield, Element.mention, BaseType.kind]

/-- A declaration mentions its name, as a parameter or a local variable, and then what
its type does. -/
theorem DeclarationPhrase.mentions {d : DeclarationPhrase} (hd : d.type.Grammatical) {x : Element}
    (hx : x.mention = some (.name d.name)) (hpieces : x.pieces = [.typeName d.type.tree]) :
    Mentions d.yield x := by
  refine @Mentions.of_parts _ _ [d.type.yield] ?_ ?_
  · simp (disch := decide) [yield, hx]
  · rw [hpieces]
    exact .cons (TypePhrase.mentions hd) .nil

theorem FunctionPhrase.mentions {f : FunctionPhrase} (hf : f.Grammatical) :
    Mentions f.yield (.function f.tree) := by
  refine @Mentions.of_parts _ _ (f.parameters.map DeclarationPhrase.yield ++
    (f.declarations.map DeclarationPhrase.yield ++ f.body.map Clause.yield)) ?_ ?_
  · have hsemicolon : Terminal.mentions (if f.semicolon then [.word .semicolon] else []) = [] := by
      cases f.semicolon <;> rfl
    simp (disch := decide) [yield, declarationsYield, tree, Element.mention, Terminal.mentions_joined, hsemicolon]
  · have hparameters := Mentions.forall₂_map fun d hd =>
      DeclarationPhrase.mentions (x := .parameter d.tree) (hf.parameters d hd) rfl rfl
    have hdeclarations := Mentions.forall₂_map fun d hd =>
      DeclarationPhrase.mentions (x := .declaration d.tree) (hf.declarations d hd) rfl rfl
    have hbody := Mentions.forall₂_map fun c hc => Clause.mentions c (hf.body c hc)
    simpa [Element.pieces, tree, Function.comp_def] using
      List.rel_append hparameters (List.rel_append hdeclarations hbody)

/-- A grammatical program is written with what its elements mention, in their order. -/
theorem ProgramPhrase.mentions {p : ProgramPhrase} (hp : p.Grammatical) :
    Mentions p.yield (.program p.tree) := by
  refine @Mentions.of_parts _ _ (p.functions.map FunctionPhrase.yield) ?_ ?_
  · simp [yield, Terminal.mentions_flatMap, Element.mention, List.flatMap_map]
  · have hfunctions := Mentions.forall₂_map fun f hf => FunctionPhrase.mentions (hp.functions f hf)
    simpa [Element.pieces, tree, Function.comp_def] using hfunctions

/-! ### Graphs -/

/-- The kinds of elements that have a mention of this sort. -/
def Mention.kinds : Mention → List Kind
  | name _ => [.function, .parameter, .declaration, .var, .entry, .call]
  | number _ => [.number]
  | text _ => [.print]

/-- A mention as labels show it. -/
def Mention.shown : Mention → String
  | name x => x
  | number n => n.text
  | text contents => Text.quoted contents

/-- The kinds of elements that have a mention. -/
def Kind.mentioning : List Kind :=
  [.function, .parameter, .declaration, .print, .number, .var, .entry, .call]

/-- The word in front of the bracket in a label is the name of a kind with a mention. -/
def Vertex.carries (v : Vertex) : Bool :=
  Kind.mentioning.any fun k => k.name.toList = v.label.toList.takeWhile (· ≠ '(')

/-- The vertex shows the mention behind the name of a kind that has one of this sort. -/
def Vertex.Shows (v : Vertex) (m : Mention) : Prop :=
  ∃ k ∈ m.kinds, v.label = k.name ++ "(" ++ m.shown ++ ")"

namespace Element

/-- The kind of an element says if it has a mention. -/
theorem mention_isSome (x : Element) : x.mention.isSome = decide (x.kind ∈ Kind.mentioning) := by
  cases x with
  | statement s => cases s <;> rfl
  | expression e => cases e <;> rfl
  | _ => rfl

/-- The mention is the detail of the label. -/
theorem kind_and_detail_of_mention {x : Element} {m : Mention} (h : x.mention = some m) :
    x.kind ∈ m.kinds ∧ x.detail = some m.shown := by
  cases x with
  | program | typeName => cases h
  | function | parameter | declaration =>
    obtain rfl := Option.some.inj h
    exact ⟨by simp [kind, Mention.kinds], rfl⟩
  | statement s =>
    cases s with
    | print =>
      obtain rfl := Option.some.inj h
      exact ⟨by simp [kind, Stmt.kind, Mention.kinds], rfl⟩
    | _ => cases h
  | expression e =>
    cases e with
    | number | var | entry | call =>
      obtain rfl := Option.some.inj h
      exact ⟨by simp [kind, Expr.kind, Mention.kinds], rfl⟩
    | _ => cases h

/-- The word in front of the bracket in a label is the name of the kind. -/
theorem takeWhile_label (x : Element) : x.label.toList.takeWhile (· ≠ '(') = x.kind.name.toList := by
  rw [label_eq, String.toList_append]
  exact takeWhile_append_of_head (forall_ne_of_not_mem x.kind.bracket_not_mem_name)
    (Text.head_within ..)

end Element

namespace Vertex

theorem carries_label (id : Nat) (x : Element) : carries ⟨id, x.label⟩ = x.mention.isSome := by
  rw [carries, Element.takeWhile_label, Element.mention_isSome, Bool.eq_iff_iff]
  simp only [List.any_eq_true, decide_eq_true_eq, String.toList_inj]
  constructor
  · rintro ⟨k, hk, hname⟩
    rwa [← Kind.name_injective hname]
  · exact fun h => ⟨x.kind, h, rfl⟩

theorem shows_label (id : Nat) {x : Element} {m : Mention} (h : x.mention = some m) :
    Shows ⟨id, x.label⟩ m := by
  obtain ⟨hkind, hdetail⟩ := Element.kind_and_detail_of_mention h
  refine ⟨x.kind, hkind, ?_⟩
  rw [Element.label, hdetail]

end Vertex

/-- The vertices of nodes that carry a mention show what the nodes mention, in order. -/
theorem Node.shows_vertices (ms : List Node) : ∀ first,
    List.Forall₂ Vertex.Shows ((vertices first ms).filter Vertex.carries)
      (ms.filterMap fun m => m.element.mention) := by
  induction ms with
  | nil => exact fun _ => .nil
  | cons m ms ih =>
    intro first
    have hcarries : Vertex.carries ⟨first, m.label⟩ = m.element.mention.isSome :=
      Vertex.carries_label first m.element
    have hvertices : vertices first (m :: ms) = ⟨first, m.label⟩ :: vertices (first + 1) ms :=
      vertices_append first [m] ms
    rw [hvertices, List.filter_cons, hcarries, List.filterMap_cons]
    cases hm : m.element.mention with
    | none => exact ih (first + 1)
    | some mention =>
      exact .cons (Vertex.shows_label first hm) (ih (first + 1))

/-- The graph of a program shows what the program mentions, in its order. -/
theorem Program.shows_mentions (p : Program) :
    List.Forall₂ Vertex.Shows (p.graph.vertices.toList.filter Vertex.carries) p.node.mentions := by
  rw [p.graph_eq.1]
  exact Node.shows_vertices p.node.nodes 0

/-! ### Sources -/

/-- **Nothing is lost, added or moved between a source and its graph.** The names, numbers
and strings among the tokens are what the nodes of the program mention, in their order,
and the vertices of the graph that carry a mention show the same. -/
theorem parseSource_mentions {source : String} {p : Program} (h : parseSource source = .ok p) :
    ∃ ts, (Scanner.ofSource source).tokens = .ok ts ∧
      Token.mentions ts = p.node.mentions.map some ∧
      List.Forall₂ Vertex.Shows (p.graph.vertices.toList.filter Vertex.carries) p.node.mentions := by
  obtain ⟨ts, q, d, -, hitems, hd, rfl, hyield⟩ := Scanner.exists_phrase h
  have hall : (Scanner.ofSource source).items = (ts ++ [Token.endOfInput q]).map .ok := by
    rw [List.map_append]
    exact hitems
  have htokens : (Scanner.ofSource source).tokens = .ok (ts ++ [Token.endOfInput q]) := by
    rw [Scanner.tokens, hall, mapM_id_ok]
  have hmentions : Token.mentions ts = d.tree.node.mentions.map some :=
    calc Token.mentions ts = Terminal.mentions (terminals ts) := (Token.mentions_terminals ts).symm
      _ = Terminal.mentions d.yield := by rw [hyield]
      _ = d.tree.node.mentions.map some := ProgramPhrase.mentions hd
  refine ⟨_, htokens, ?_, d.tree.shows_mentions⟩
  rw [← hmentions, Token.mentions, List.filter_append, List.map_append]
  exact List.append_nil _

/-- A size, a call with an entry in it, and a name that is a text too. -/
theorem parseSource_mentions_call : ∃ p ts,
    parseSource "fun f(a: int[2]) x: int begin x = g(a[1], y); print(\"y\") end" = .ok p ∧
      (Scanner.ofSource "fun f(a: int[2]) x: int begin x = g(a[1], y); print(\"y\") end").tokens =
        .ok ts ∧
      Token.mentions ts = [.name "f", .name "a", .number (.int 2), .name "x", .name "x", .name "g",
        .name "a", .number (.int 1), .name "y", .text "y"].map some ∧
      List.Forall₂ Vertex.Shows (p.graph.vertices.toList.filter Vertex.carries) p.node.mentions := by
  have hparse : parseSource "fun f(a: int[2]) x: int begin x = g(a[1], y); print(\"y\") end" =
      .ok ⟨[⟨"f", [⟨"a", .int, some (.number (.int 2))⟩], [⟨"x", .int, none⟩],
        [.assign (.var "x") (.call "g" [.entry "a" (.number (.int 1)), .var "y"]), .print "y"]⟩]⟩ :=
    (congrArg parse (Scanner.items_eq_itemsWithin _)).trans (by decide +kernel)
  obtain ⟨ts, htokens, hmentions, hgraph⟩ := parseSource_mentions hparse
  exact ⟨_, ts, hparse, htokens, hmentions, hgraph⟩

end SyntaxGraph
