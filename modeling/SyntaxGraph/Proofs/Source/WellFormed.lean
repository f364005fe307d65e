/-
# Programs that are read are well formed

The types of trees leave more open than the grammar does: lists may be empty
there, anything may be assigned to, and an `else` may go with an `if` that is
not the nearest one open. A program that comes from a stream has none of this,
in no part of it: the tree of a grammatical clause is well formed since the
clause is grammatical, and what clauses make sure of holds throughout.

A program that comes from a source has names and integers that can stand in a
source, too.

Key definitions: `Element.WellFormed`.
Key theorems: `Clause.wellFormed_tree`, `parse_wellFormed`.
-/
import SyntaxGraph.Proofs.Source.Program
import SyntaxGraph.Proofs.Source.Spelled

namespace SyntaxGraph

/-- There is a function in a program, and there are statements in the body of a
function and in a block; what is assigned to or read into is a location; no
`else` goes with an `if` past one at the right edge of the branch in front of
it, which is nearer and still open. -/
def Element.WellFormed : Element → Prop
  | program p => p.functions ≠ []
  | function f => f.body ≠ []
  | statement (.block ss) => ss ≠ []
  | statement (.assign l _) | statement (.update _ l _) | statement (.read l) =>
    l.isLocation = true
  | statement (.ifThenElse _ yes _) => yes.endsInIf = false
  | _ => True

theorem Phrase.IsTarget.isLocation_tree {l : Phrase} (h : l.IsTarget) :
    l.tree.isLocation = true := by
  cases l with
  | var x => rfl
  | entry a i => rfl
  | _ => cases h

/-- The tree of a grammatical clause is well formed. -/
theorem Clause.wellFormed_tree {c : Clause} (h : c.Grammatical) :
    (Element.statement c.tree).WellFormed := by
  cases c with
  | assign update l e =>
    have hl : l.tree.isLocation = true := h.1.isLocation_tree
    cases update with
    | none => exact hl
    | some op => exact hl
  | read l =>
    have hl : l.IsTarget := h
    exact hl.isLocation_tree
  | ifThenElse c s t =>
    obtain ⟨-, -, hs, -⟩ := h
    show s.tree.endsInIf = false
    rw [endsInIf_tree, hs]
  | block ss =>
    obtain ⟨hne, -⟩ := h
    show trees ss ≠ []
    rw [trees_eq_map]
    exact fun hnil => hne (List.map_eq_nil_iff.mp hnil)
  | _ => trivial

/-- Grammatical constructs are well formed, whatever their terminals are. -/
theorem Grammar.ensures_wellFormed : Ensures (fun _ => True) Element.WellFormed where
  phrase _ _ _ := trivial
  clause _ hc _ := Clause.wellFormed_tree hc
  typeName _ _ _ := trivial
  parameter _ _ _ := trivial
  declaration _ _ _ := trivial
  function _ hf _ := fun hnil => hf.body_ne_nil (List.map_eq_nil_iff.mp hnil)
  program _ hp _ := fun hnil => hp.functions_ne_nil (List.map_eq_nil_iff.mp hnil)

/-- A program that is read from a stream is well formed, whatever the limit of
nesting is. -/
theorem TokenStream.shows_wellFormed {limit : Nat} {s : TokenStream} {p : Program}
    (h : s.parse limit = .ok p) : p.node.Shows Element.WellFormed := by
  obtain ⟨-, d, hd, -, rfl, -⟩ := exists_phrase h
  exact Grammar.ensures_wellFormed.throughout hd fun _ _ => trivial

/-- **Every program that is read is well formed** throughout. If it is read from a
source, all its names are names that are no reserved words, and all its integers
fit a word without a sign. -/
theorem parse_wellFormed :
    (∀ items p, parse items = .ok p → p.node.Shows Element.WellFormed) ∧
    ∀ source p, parseSource source = .ok p →
      p.node.Shows Element.WellFormed ∧ p.node.Shows Element.IsSpelled := by
  refine ⟨fun items p h => TokenStream.shows_wellFormed h, fun source p h => ⟨?_, ?_⟩⟩
  · exact TokenStream.shows_wellFormed h
  · exact parseSource_isSpelled h

/-- An `else` behind two open `if`s goes with the inner one; where the inner one is in
a block in front of it, with the outer one. -/
theorem parse_nearest_if : ∃ inner outer : Program,
    parseSource "fun f() begin if a then if b then skip else break end" = .ok inner ∧
      inner.node.Shows Element.WellFormed ∧
    parseSource "fun f() begin if a then begin if b then skip end else break end" = .ok outer ∧
      outer.node.Shows Element.WellFormed ∧ outer.node.Shows Element.IsSpelled := by
  have hinner : parseSource "fun f() begin if a then if b then skip else break end" =
      .ok ⟨[⟨"f", [], [], [.ifThen (.var "a") (.ifThenElse (.var "b") .skip .leave)]⟩]⟩ :=
    (congrArg parse (Scanner.items_eq_itemsWithin _)).trans (by decide +kernel)
  have houter : parseSource "fun f() begin if a then begin if b then skip end else break end" =
      .ok ⟨[⟨"f", [], [], [.ifThenElse (.var "a") (.block [.ifThen (.var "b") .skip]) .leave]⟩]⟩ :=
    (congrArg parse (Scanner.items_eq_itemsWithin _)).trans (by decide +kernel)
  obtain ⟨hstream, hsource⟩ := parse_wellFormed
  exact ⟨_, _, hinner, hstream _ _ hinner, houter, hsource _ _ houter⟩

end SyntaxGraph
