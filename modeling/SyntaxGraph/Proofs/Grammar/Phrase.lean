/-
# Expressions as they are written

A phrase is the parse tree of an expression: it has the parentheses and the
spelled literals of the text. Its `yield` is the row of terminals that it is
written with, and its `tree` the expression that it stands for.

A phrase is grammatical when

* every operand binds at least as tightly as its place asks for. The left
  operand of `or`, `and`, `+`, `-`, `*`, `/` may have the precedence of the
  operator, the right one has to be tighter; both sides of a comparison are
  sums or tighter; indices and arguments are too; anything may stand behind
  `not` and in parentheses;
* no `not` is left of a connective in the same condition: its operand is all
  that follows there;
* every literal reads as the number it stands for.

Literals, names, calls, entries, parentheses, the operand of a sign and the
operand of `not` each open a level of nesting; `levels` counts the levels
that are open at once.

Key definitions: `Precedence`, `Phrase`, `Phrase.yield`, `Phrase.tree`,
`Phrase.Fits`, `Phrase.Grammatical`, `Phrase.levels`.
-/
import SyntaxGraph.Proofs.Grammar.Terminal

namespace SyntaxGraph

/-- How tightly an expression holds together, from the loosest on. -/
inductive Precedence where
  | disjunction | conjunction | negation | comparison | sum | product | sign | primary
  deriving DecidableEq, Repr

namespace Precedence

/-- The place in the order of tightness. -/
def rank : Precedence → Nat
  | disjunction => 0
  | conjunction => 1
  | negation => 2
  | comparison => 3
  | sum => 4
  | product => 5
  | sign => 6
  | primary => 7

/-- The next tighter precedence. -/
def tighter : Precedence → Precedence
  | disjunction => conjunction
  | conjunction => negation
  | negation => comparison
  | comparison => sum
  | sum => product
  | product => sign
  | sign | primary => primary

end Precedence

/-- The precedence of an operator of arithmetic. -/
def Arith.precedence : Arith → Precedence
  | add | sub => .sum
  | mul | div => .product

/-- The precedence of a connective. -/
def Connective.precedence : Connective → Precedence
  | and => .conjunction
  | or => .disjunction

namespace Grammar

theorem sumOperator_eq_some {k : Token.Kind} {op : Arith} :
    sumOperator k = some op ↔ k = op.kind ∧ op.precedence = .sum := by
  cases k <;> cases op <;> decide

theorem productOperator_eq_some {k : Token.Kind} {op : Arith} :
    productOperator k = some op ↔ k = op.kind ∧ op.precedence = .product := by
  cases k <;> cases op <;> decide

end Grammar

/-- The words, with a `separator` between any two of them. -/
def joined (separator : Token.Kind) : List (List Terminal) → List Terminal
  | [] => []
  | w :: ws => w ++ ws.flatMap (.word separator :: ·)

theorem joined_concat (separator : Token.Kind) {ws : List (List Terminal)} (h : ws ≠ [])
    (w : List Terminal) :
    joined separator (ws ++ [w]) = joined separator ws ++ .word separator :: w := by
  obtain ⟨v, vs, rfl⟩ := List.exists_cons_of_ne_nil h
  simp [joined]

/-- Expressions as they are written. -/
inductive Phrase where
  | int (text : String) (value : Int)
  | float (text : String) (value : Float)
  | var (name : String)
  | entry (array : String) (index : Phrase)
  | call (function : String) (arguments : List Phrase)
  | parens (inner : Phrase)
  | signed (sign : Sign) (operand : Phrase)
  | arith (op : Arith) (left right : Phrase)
  | compare (op : Comparison) (left right : Phrase)
  | not (operand : Phrase)
  | logical (op : Connective) (left right : Phrase)

namespace Phrase

mutual

/-- The terminals that a phrase is written with. -/
def yield : Phrase → List Terminal
  | int text _ => [.int text]
  | float text _ => [.float text]
  | var x => [.ident x]
  | entry a i => .ident a :: .word .lBracket :: (i.yield ++ [.word .rBracket])
  | call f es => .ident f :: .word .lParen :: (joined .comma (yields es) ++ [.word .rParen])
  | parens e => .word .lParen :: (e.yield ++ [.word .rParen])
  | signed sign e => .word sign.kind :: e.yield
  | arith op l r => l.yield ++ .word op.kind :: r.yield
  | compare op l r => l.yield ++ .word op.kind :: r.yield
  | not e => .word .notWord :: e.yield
  | logical op l r => l.yield ++ .word op.kind :: r.yield

/-- The yields of phrases. -/
def yields : List Phrase → List (List Terminal)
  | [] => []
  | e :: es => e.yield :: yields es

end

mutual

/-- The expression that a phrase stands for. -/
def tree : Phrase → Expr
  | int _ i => .number (.int i)
  | float _ x => .number (.float x)
  | var x => .var x
  | entry a i => .entry a i.tree
  | call f es => .call f (trees es)
  | parens e => e.tree
  | signed sign e => .signed sign e.tree
  | arith op l r => .arith op l.tree r.tree
  | compare op l r => .compare op l.tree r.tree
  | not e => .not e.tree
  | logical op l r => .logical op l.tree r.tree

/-- The expressions that phrases stand for. -/
def trees : List Phrase → List Expr
  | [] => []
  | e :: es => e.tree :: trees es

end

/-- The precedence of a phrase. -/
def precedence : Phrase → Precedence
  | int .. | float .. | var _ | entry .. | call .. | parens _ => .primary
  | signed .. => .sign
  | arith op .. => op.precedence
  | compare .. => .comparison
  | not _ => .negation
  | logical op .. => op.precedence

/-- The phrase is tight enough for a place that asks for the precedence `p`. -/
def Fits (p : Precedence) (e : Phrase) : Prop :=
  p.rank ≤ e.precedence.rank

instance (p : Precedence) (e : Phrase) : Decidable (e.Fits p) :=
  inferInstanceAs (Decidable (_ ≤ _))

/-- The phrase ends with the operand of a `not`, which would take in a
connective behind it. -/
def endsInNot : Phrase → Bool
  | not _ => true
  | logical _ _ r => r.endsInNot
  | _ => false

mutual

/-- The phrase keeps the rules of the grammar. -/
def Grammatical : Phrase → Prop
  | int text i => Decimal.readInt text.toList = some i
  | float text x => Decimal.readFloat text.toList = some x
  | var _ => True
  | entry _ i => i.Fits .sum ∧ i.Grammatical
  | call _ es => AllGrammatical es
  | parens e => e.Grammatical
  | signed _ e => e.Fits .sign ∧ e.Grammatical
  | arith op l r => l.Fits op.precedence ∧ r.Fits op.precedence.tighter ∧
      l.Grammatical ∧ r.Grammatical
  | compare _ l r => l.Fits .sum ∧ r.Fits .sum ∧ l.Grammatical ∧ r.Grammatical
  | not e => e.Grammatical
  | logical op l r => l.Fits op.precedence ∧ r.Fits op.precedence.tighter ∧
      l.endsInNot = false ∧ l.Grammatical ∧ r.Grammatical

/-- Arguments keep the rules of the grammar. -/
def AllGrammatical : List Phrase → Prop
  | [] => True
  | e :: es => (e.Fits .sum ∧ e.Grammatical) ∧ AllGrammatical es

end

mutual

/-- How many levels of nesting the phrase has open at once. -/
def levels : Phrase → Nat
  | int .. | float .. | var _ => 1
  | entry _ i => i.levels + 1
  | call _ es => levelsOfAll es + 1
  | parens e => e.levels + 1
  | signed _ e => e.levels + 1
  | arith _ l r => max l.levels r.levels
  | compare _ l r => max l.levels r.levels
  | not e => e.levels + 1
  | logical _ l r => max l.levels r.levels

/-- How many levels arguments have open at once. -/
def levelsOfAll : List Phrase → Nat
  | [] => 0
  | e :: es => max e.levels (levelsOfAll es)

end

/-! ### Lists of phrases -/

@[simp] theorem yields_eq_map (es : List Phrase) : yields es = es.map yield := by
  induction es with
  | nil => rfl
  | cons e es ih => simp [yields, ih]

@[simp] theorem trees_eq_map (es : List Phrase) : trees es = es.map tree := by
  induction es with
  | nil => rfl
  | cons e es ih => simp [trees, ih]

@[simp] theorem allGrammatical_iff (es : List Phrase) :
    AllGrammatical es ↔ ∀ e ∈ es, e.Fits .sum ∧ e.Grammatical := by
  induction es with
  | nil => simp [AllGrammatical]
  | cons e es ih => simp [AllGrammatical, ih]

@[simp] theorem levelsOfAll_le_iff (es : List Phrase) (n : Nat) :
    levelsOfAll es ≤ n ↔ ∀ e ∈ es, e.levels ≤ n := by
  induction es with
  | nil => simp [levelsOfAll]
  | cons e es ih => rw [levelsOfAll, Nat.max_le, ih, List.forall_mem_cons]

/-! ### Precedence -/

theorem Fits.of_rank_le {p q : Precedence} {e : Phrase} (h : e.Fits p) (hq : q.rank ≤ p.rank) :
    e.Fits q :=
  Nat.le_trans hq h

theorem fits_of_primary {e : Phrase} (h : e.precedence = .primary) (p : Precedence) : e.Fits p := by
  rw [Fits, h]
  cases p <;> decide

theorem fits_disjunction (e : Phrase) : e.Fits .disjunction :=
  Nat.zero_le _

/-- Only conditions end in an open `not`. -/
theorem Fits.endsInNot_eq_false {e : Phrase} (h : e.Fits .comparison) : e.endsInNot = false := by
  cases e with
  | not e => simp [Fits, precedence, Precedence.rank] at h
  | logical op l r => cases op <;> simp [Fits, precedence, Connective.precedence,
      Precedence.rank] at h
  | _ => rfl

theorem one_le_levels : ∀ e : Phrase, 1 ≤ e.levels
  | int .. | float .. | var _ => Nat.le_refl 1
  | entry .. | call .. | parens _ | signed .. | not _ => Nat.le_add_left 1 _
  | arith _ l _ => Nat.le_trans (one_le_levels l) (Nat.le_max_left ..)
  | compare _ l _ => Nat.le_trans (one_le_levels l) (Nat.le_max_left ..)
  | logical _ l _ => Nat.le_trans (one_le_levels l) (Nat.le_max_left ..)

end Phrase
end SyntaxGraph
