/-
# Where a phrase begins and ends

One token ahead tells how a phrase goes on. Some kinds of tokens open a phrase
of a certain precedence, and some bind a phrase in front of them: an operator
binds what has its precedence, and an opening parenthesis or bracket binds a
name. A phrase is over when what is behind it binds too loosely for its place.

Key definitions: `Token.Kind.opens`, `Token.Kind.binds`, `Grammar.Over`,
`Grammar.Clear`.
Key theorems: `Phrase.opens_of_fits`, `Grammar.Clear.over`.
-/
import SyntaxGraph.Proofs.Grammar.Operators
import SyntaxGraph.Proofs.Grammar.Verdict

namespace SyntaxGraph

/-- The tightest precedence of the phrases that start with such a token. -/
def Token.Kind.opens : Token.Kind → Option Precedence
  | ident | intLiteral | floatLiteral | lParen => some .primary
  | plus | minus => some .sign
  | notWord => some .negation
  | _ => none

/-- The precedence of the phrases that go on with such a token. -/
def Token.Kind.binds : Token.Kind → Option Precedence
  | lParen | lBracket => some .primary
  | star | slash => some .product
  | plus | minus => some .sum
  | lt | le | gt | ge | eqEq | notEq => some .comparison
  | andWord => some .conjunction
  | orWord => some .disjunction
  | _ => none

theorem Arith.binds_kind (op : Arith) : op.kind.binds = some op.precedence := by
  cases op <;> rfl

theorem Comparison.binds_kind (op : Comparison) : op.kind.binds = some .comparison := by
  cases op <;> rfl

theorem Connective.binds_kind (op : Connective) : op.kind.binds = some op.precedence := by
  cases op <;> rfl

/-- A phrase starts with a token that opens phrases at least as tight. -/
theorem Phrase.opens_of_fits {p : Precedence} : ∀ {e : Phrase}, e.Fits p → e.Grammatical →
    ∃ x w q, e.yield = x :: w ∧ x.kind.opens = some q ∧ p.rank ≤ q.rank
  | .int .., h, _ | .float .., h, _ | .var _, h, _ => ⟨_, [], .primary, rfl, rfl, h⟩
  | .entry .., h, _ | .call .., h, _ | .parens _, h, _ => ⟨_, _, .primary, rfl, rfl, h⟩
  | .signed sign e, h, _ => ⟨_, e.yield, .sign, rfl, by cases sign <;> rfl, h⟩
  | .not e, h, _ => ⟨_, e.yield, .negation, rfl, rfl, h⟩
  | .arith op l r, h, ⟨hl, _, hlg, _⟩ => by
    obtain ⟨x, w, q, hw, hx, hq⟩ := opens_of_fits hl hlg
    exact ⟨x, w ++ .word op.kind :: r.yield, q, by simp [yield, hw], hx, Nat.le_trans h hq⟩
  | .compare op l r, h, ⟨hl, _, hlg, _⟩ => by
    obtain ⟨x, w, q, hw, hx, hq⟩ := opens_of_fits hl hlg
    have hcs : Precedence.comparison.rank ≤ Precedence.sum.rank := by decide
    exact ⟨x, w ++ .word op.kind :: r.yield, q, by simp [yield, hw], hx,
      Nat.le_trans h (Nat.le_trans hcs hq)⟩
  | .logical op l r, h, ⟨hl, _, _, hlg, _⟩ => by
    obtain ⟨x, w, q, hw, hx, hq⟩ := opens_of_fits hl hlg
    exact ⟨x, w ++ .word op.kind :: r.yield, q, by simp [yield, hw], hx, Nat.le_trans h hq⟩

namespace Grammar

/-- What is in front of the stream binds more loosely than `p`. -/
def Over (p : Precedence) (s : TokenStream) : Prop :=
  ∀ k, s.next = some k → ∀ q, k.binds = some q → q.rank < p.rank

/-- The stream is settled and nothing in front goes on with a phrase. -/
structure Clear (s : TokenStream) : Prop where
  settled : s.Settled
  binds : ∀ k, s.next = some k → k.binds = none

theorem Over.tighten {p q : Precedence} {s : TokenStream} (h : Over p s) (hq : p.rank ≤ q.rank) :
    Over q s :=
  fun k hk r hr => Nat.lt_of_lt_of_le (h k hk r hr) hq

theorem Clear.over {s : TokenStream} (h : Clear s) (p : Precedence) : Over p s :=
  fun k hk q hq => by simp [h.binds k hk] at hq

theorem Clear.next_ne {s : TokenStream} (h : Clear s) {k : Token.Kind} (hk : k.binds ≠ none) :
    s.next ≠ some k :=
  fun hnext => hk (h.binds k hnext)

theorem clear_push {t : Token} {ts : List Token} {s : TokenStream} (h : t.kind.binds = none) :
    Clear (s.push (t :: ts)) where
  settled := TokenStream.settled_of_ne_nil (by simp)
  binds k hk := by
    obtain rfl : t.kind = k := by simpa using hk
    exact h

/-! ### Splitting tokens along their terminals -/

theorem terminals_eq_append {w : List Token} {u v : List Terminal} (h : terminals w = u ++ v) :
    ∃ us vs, w = us ++ vs ∧ terminals us = u ∧ terminals vs = v :=
  List.map_eq_append_iff.mp h

theorem terminals_eq_cons {w : List Token} {x : Terminal} {v : List Terminal}
    (h : terminals w = x :: v) : ∃ t vs, w = t :: vs ∧ t.terminal = x ∧ terminals vs = v := by
  obtain ⟨t, vs, rfl, ht, hvs⟩ := List.map_eq_cons_iff.mp h
  exact ⟨t, vs, rfl, ht, hvs⟩

theorem terminals_eq_nil {w : List Token} (h : terminals w = []) : w = [] :=
  List.map_eq_nil_iff.mp h

theorem terminals_eq_singleton {w : List Token} {x : Terminal} (h : terminals w = [x]) :
    ∃ t, w = [t] ∧ t.terminal = x := by
  obtain ⟨t, vs, rfl, ht, hvs⟩ := terminals_eq_cons h
  obtain rfl := terminals_eq_nil hvs
  exact ⟨t, rfl, ht⟩

theorem kind_of_terminal {t : Token} {x : Terminal} (h : t.terminal = x) : t.kind = x.kind :=
  congrArg Terminal.kind h

theorem text_of_terminal {t : Token} {x : Terminal} (h : t.terminal = x)
    (hopen : x.kind.isOpen = true) : t.text = x.text := by
  subst h
  simp only [Token.kind_terminal] at hopen
  simp [Token.terminal, hopen]

/-- Terminals followed by a word, with tokens that show as them. -/
theorem terminals_eq_append_word {w : List Token} {u v : List Terminal} {k : Token.Kind}
    (h : terminals w = u ++ .word k :: v) :
    ∃ us t vs, w = us ++ t :: vs ∧ terminals us = u ∧ t.kind = k ∧ terminals vs = v := by
  obtain ⟨us, _, rfl, hus, hvs⟩ := terminals_eq_append h
  obtain ⟨t, vs, rfl, ht, hvs⟩ := terminals_eq_cons hvs
  exact ⟨us, t, vs, rfl, hus, kind_of_terminal ht, hvs⟩

theorem terminals_eq_concat_word {w : List Token} {u : List Terminal} {k : Token.Kind}
    (h : terminals w = u ++ [.word k]) : ∃ us t, w = us ++ [t] ∧ terminals us = u ∧ t.kind = k := by
  obtain ⟨us, t, _, rfl, hus, ht, hnil⟩ := terminals_eq_append_word h
  obtain rfl := terminals_eq_nil hnil
  exact ⟨us, t, rfl, hus, ht⟩

end Grammar
end SyntaxGraph
