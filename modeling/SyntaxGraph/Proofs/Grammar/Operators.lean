/-
# Operators that group to the left

The operators of arithmetic and the connectives follow the same rules: a node
is its left operand, the operator and its right operand, it has the precedence
of the operator, and its right operand has to be tighter. So one argument does
for sums, products, conjunctions and disjunctions.

Key definitions: `Operators`, `Operators.arithmetic`, `Operators.connectives`.
Key theorems: `Operators.fits_cases`.
-/
import SyntaxGraph.Proofs.Grammar.Phrase

namespace SyntaxGraph

/-- Binary operators that group to the left, with the nodes that they make. -/
structure Operators where
  Op : Type
  kind : Op → Token.Kind
  precedence : Op → Precedence
  join : Op → Expr → Expr → Expr
  node : Op → Phrase → Phrase → Phrase
  isOpen_kind : ∀ op, (kind op).isOpen = false
  tree_node : ∀ op l r, (node op l r).tree = join op l.tree r.tree
  yield_node : ∀ op l r, (node op l r).yield = l.yield ++ .word (kind op) :: r.yield
  levels_node : ∀ op l r, (node op l r).levels = max l.levels r.levels
  precedence_node : ∀ op l r, (node op l r).precedence = precedence op
  endsInNot_node : ∀ op l r, (node op l r).endsInNot = true → r.endsInNot = true
  endsInNot_right : ∀ op l r, r.Fits (precedence op).tighter → r.endsInNot = true →
    (node op l r).endsInNot = true
  grammatical_node : ∀ op l r, (node op l r).Grammatical ↔ l.Fits (precedence op) ∧
    r.Fits (precedence op).tighter ∧ l.endsInNot = false ∧ l.Grammatical ∧ r.Grammatical
  /-- A phrase in the place of a left operand that ends in a `not` would take
  in the operator behind it. -/
  takes : ∀ op (l : Phrase), l.Fits (precedence op) → l.endsInNot = true →
    ∃ c : Connective, kind op = c.kind
  /-- No other phrase has the precedence of these operators. -/
  eq_node : ∀ (e : Phrase) op, e.precedence = precedence op → ∃ op' l r, e = node op' l r

namespace Operators

/-- The operators of arithmetic. -/
def arithmetic : Operators where
  Op := Arith
  kind := Arith.kind
  precedence := Arith.precedence
  join := .arith
  node := .arith
  isOpen_kind op := by cases op <;> rfl
  tree_node _ _ _ := by simp [Phrase.tree]
  yield_node _ _ _ := by simp [Phrase.yield]
  levels_node _ _ _ := by simp [Phrase.levels]
  precedence_node _ _ _ := rfl
  endsInNot_node _ _ _ := by simp [Phrase.endsInNot]
  endsInNot_right op _ r hr hnot := by
    have htight : Precedence.comparison.rank ≤ op.precedence.tighter.rank := by cases op <;> decide
    simp [(hr.of_rank_le htight).endsInNot_eq_false] at hnot
  grammatical_node op l r := by
    have htight : Precedence.comparison.rank ≤ op.precedence.rank := by cases op <;> decide
    have hnot : l.Fits op.precedence → l.endsInNot = false := fun h =>
      (h.of_rank_le htight).endsInNot_eq_false
    simp only [Phrase.Grammatical]
    exact ⟨fun ⟨hl, hr, h⟩ => ⟨hl, hr, hnot hl, h⟩, fun ⟨hl, hr, _, h⟩ => ⟨hl, hr, h⟩⟩
  takes op l hl hnot := by
    have htight : Precedence.comparison.rank ≤ op.precedence.rank := by cases op <;> decide
    simp [(hl.of_rank_le htight).endsInNot_eq_false] at hnot
  eq_node e op he := by
    cases e <;> try (cases op <;> simp [Phrase.precedence, Arith.precedence] at he; done)
    case arith op' l r => exact ⟨op', l, r, rfl⟩
    case logical op' l r => cases op <;> cases op' <;> simp [Phrase.precedence, Arith.precedence,
      Connective.precedence] at he

/-- The connectives. -/
def connectives : Operators where
  Op := Connective
  kind := Connective.kind
  precedence := Connective.precedence
  join := .logical
  node := .logical
  isOpen_kind op := by cases op <;> rfl
  tree_node _ _ _ := by simp [Phrase.tree]
  yield_node _ _ _ := by simp [Phrase.yield]
  levels_node _ _ _ := by simp [Phrase.levels]
  precedence_node _ _ _ := rfl
  endsInNot_node _ _ _ h := by simpa [Phrase.endsInNot] using h
  endsInNot_right _ _ _ _ h := by simpa [Phrase.endsInNot] using h
  grammatical_node _ _ _ := by simp [Phrase.Grammatical]
  takes op _ _ _ := ⟨op, rfl⟩
  eq_node e op he := by
    cases e <;> try (cases op <;> simp [Phrase.precedence, Connective.precedence] at he; done)
    case logical op' l r => exact ⟨op', l, r, rfl⟩
    case arith op' l r => cases op <;> cases op' <;> simp [Phrase.precedence, Arith.precedence,
      Connective.precedence] at he

variable {o : Operators}

theorem fits_node {op : o.Op} {l r : Phrase} : (o.node op l r).Fits (o.precedence op) := by
  simp [Phrase.Fits, o.precedence_node]

/-- A phrase that fits the precedence of an operator is tighter,
or it is a node of these operators with that precedence. -/
theorem fits_cases {e : Phrase} {op : o.Op} (h : e.Fits (o.precedence op)) :
    e.Fits (o.precedence op).tighter ∨
      ∃ op' l r, e = o.node op' l r ∧ o.precedence op' = o.precedence op := by
  by_cases hp : e.precedence = o.precedence op
  · obtain ⟨op', l, r, rfl⟩ := o.eq_node e op hp
    exact .inr ⟨op', l, r, rfl, by rw [← hp, o.precedence_node]⟩
  · refine .inl ?_
    revert h hp
    simp only [Phrase.Fits]
    cases e.precedence <;> cases o.precedence op <;> decide

end Operators
end SyntaxGraph
