/-
# Writing expressions

An expression is written with parentheses only where its place asks for them:
around an operand that is looser than its place, and where a `not` in the left
operand of a connective would take in the connective. The latter can be kept
apart in two ways: with parentheses around the whole left operand, or around
the `not` at its right edge.

Key definitions: `Phrase.enclosed`, `Shielding`, `Expr.phrase`, `Expr.Printable`.
Key theorems: `Expr.phrase_writes`.
-/
import SyntaxGraph.Proofs.Source.Spaced

namespace SyntaxGraph

theorem map_map_eq_self {α β : Type} {write : α → β} {tree : β → α} {as : List α}
    (h : ∀ a ∈ as, tree (write a) = a) : (as.map write).map tree = as := by
  have hid : as.map (tree ∘ write) = as.map id := List.map_congr_left h
  rw [List.map_map, hid, List.map_id]

namespace Phrase

/-- The phrase in a place that asks for the precedence `p`. -/
def enclosed (p : Precedence) (e : Phrase) : Phrase :=
  if e.Fits p then e else .parens e

/-- The phrase with parentheses around the `not` that it ends in. -/
def enclosedNot : Phrase → Phrase
  | not e => .parens (.not e)
  | logical op l r => .logical op l r.enclosedNot
  | e => e

/-- The phrase is written for the expression `e`: it is grammatical, and its
terminals have spellings. -/
structure Writes (d : Phrase) (e : Expr) : Prop where
  tree : d.tree = e
  grammatical : d.Grammatical
  isSpelled : ∀ x ∈ d.yield, x.IsSpelled

end Phrase

/-- How a left operand that ends in a `not` is kept apart from the connective
behind it. -/
inductive Shielding where
  /-- Parentheses around the operand. -/
  | whole
  /-- Parentheses around the `not` at its right edge. -/
  | edge
  deriving DecidableEq, Repr

/-- The left operand of a connective. -/
def Shielding.shielded : Shielding → Phrase → Phrase
  | whole, e => if e.endsInNot then .parens e else e
  | edge, e => e.enclosedNot

namespace Expr

mutual

/-- The phrase that an expression is written as. -/
def phrase (σ : Shielding) : Expr → Phrase
  | arith op l r =>
    .arith op ((l.phrase σ).enclosed op.precedence) ((r.phrase σ).enclosed op.precedence.tighter)
  | signed sign e => .signed sign ((e.phrase σ).enclosed .sign)
  | number (.int i) => .int (Decimal.intText i) i
  | number (.float x) => .float (Number.floatText x) x
  | var x => .var x
  | entry a i => .entry a ((i.phrase σ).enclosed .sum)
  | call f es => .call f (phrases σ es)
  | compare op l r => .compare op ((l.phrase σ).enclosed .sum) ((r.phrase σ).enclosed .sum)
  | logical op l r =>
    .logical op (σ.shielded ((l.phrase σ).enclosed op.precedence))
      ((r.phrase σ).enclosed op.precedence.tighter)
  | not e => .not (e.phrase σ)

/-- The phrases that arguments are written as. -/
def phrases (σ : Shielding) : List Expr → List Phrase
  | [] => []
  | e :: es => (e.phrase σ).enclosed .sum :: phrases σ es

end

mutual

/-- All names are names, and all numbers are integers of a word without a sign. -/
def Printable : Expr → Prop
  | arith _ l r | compare _ l r | logical _ l r => l.Printable ∧ r.Printable
  | signed _ e | not e => e.Printable
  | number (.int i) => 0 ≤ i ∧ i < 2 ^ 63
  | number (.float _) => False
  | var x => IsName x
  | entry a i => IsName a ∧ i.Printable
  | call f es => IsName f ∧ AllPrintable es

/-- All expressions are printable. -/
def AllPrintable : List Expr → Prop
  | [] => True
  | e :: es => e.Printable ∧ AllPrintable es

end

theorem allPrintable_iff {es : List Expr} : AllPrintable es ↔ ∀ e ∈ es, e.Printable := by
  induction es with
  | nil => simp [AllPrintable]
  | cons e es ih => rw [AllPrintable, ih, List.forall_mem_cons]

@[simp] theorem phrases_eq_map (σ : Shielding) (es : List Expr) :
    phrases σ es = es.map fun e => (e.phrase σ).enclosed .sum := by
  induction es with
  | nil => rfl
  | cons e es ih => simp [phrases, ih]

end Expr

namespace Phrase

open Terminal

variable {σ : Shielding} {p : Precedence} {d l r : Phrase} {a b e : Expr}

/-! ### Parentheses -/

theorem shielded_whole (d : Phrase) :
    Shielding.whole.shielded d = if d.endsInNot then .parens d else d := rfl

theorem fits_enclosed (p : Precedence) (d : Phrase) : (d.enclosed p).Fits p := by
  unfold Phrase.enclosed
  split
  · assumption
  · exact fits_of_primary rfl p

theorem fits_enclosedNot (h : d.Fits p) : d.enclosedNot.Fits p := by
  cases d with
  | not e => exact fits_of_primary rfl p
  | _ => exact h

theorem fits_shielded (h : d.Fits p) : (σ.shielded d).Fits p := by
  cases σ with
  | whole =>
    rw [shielded_whole]
    split
    · exact fits_of_primary rfl p
    · exact h
  | edge => exact fits_enclosedNot h

theorem endsInNot_enclosedNot : ∀ d : Phrase, d.enclosedNot.endsInNot = false
  | not _ => rfl
  | logical _ _ r => endsInNot_enclosedNot r
  | int .. | float .. | var _ | entry .. | call .. | parens _ | signed .. | arith .. | compare .. => rfl

/-- No `not` is at the right edge of a shielded operand. -/
theorem endsInNot_shielded (σ : Shielding) (d : Phrase) : (σ.shielded d).endsInNot = false := by
  cases σ with
  | whole =>
    rw [shielded_whole]
    split
    · rfl
    · rename_i hnot
      simpa using hnot
  | edge => exact endsInNot_enclosedNot d

/-! ### What is written -/

namespace Writes

theorem parens (h : d.Writes e) : (Phrase.parens d).Writes e where
  tree := h.tree
  grammatical := h.grammatical
  isSpelled := isSpelled_cons (by decide) (isSpelled_append h.isSpelled (by decide) nofun)

theorem enclosed (h : d.Writes e) (p : Precedence) : (d.enclosed p).Writes e := by
  unfold Phrase.enclosed
  split
  · exact h
  · exact h.parens

theorem arith {op : Arith} (hl : l.Writes a) (hr : r.Writes b) (hleft : l.Fits op.precedence)
    (hright : r.Fits op.precedence.tighter) : (Phrase.arith op l r).Writes (.arith op a b) where
  tree := by rw [Phrase.tree, hl.tree, hr.tree]
  grammatical := ⟨hleft, hright, hl.grammatical, hr.grammatical⟩
  isSpelled := isSpelled_append hl.isSpelled (by cases op <;> decide) hr.isSpelled

theorem compare {op : Comparison} (hl : l.Writes a) (hr : r.Writes b) (hleft : l.Fits .sum)
    (hright : r.Fits .sum) : (Phrase.compare op l r).Writes (.compare op a b) where
  tree := by rw [Phrase.tree, hl.tree, hr.tree]
  grammatical := ⟨hleft, hright, hl.grammatical, hr.grammatical⟩
  isSpelled := isSpelled_append hl.isSpelled (by cases op <;> decide) hr.isSpelled

theorem logical {op : Connective} (hl : l.Writes a) (hr : r.Writes b) (hleft : l.Fits op.precedence)
    (hright : r.Fits op.precedence.tighter) (hnot : l.endsInNot = false) :
    (Phrase.logical op l r).Writes (.logical op a b) where
  tree := by rw [Phrase.tree, hl.tree, hr.tree]
  grammatical := ⟨hleft, hright, hnot, hl.grammatical, hr.grammatical⟩
  isSpelled := isSpelled_append hl.isSpelled (by cases op <;> decide) hr.isSpelled

theorem signed {sign : Sign} (h : d.Writes e) (hfits : d.Fits .sign) :
    (Phrase.signed sign d).Writes (.signed sign e) where
  tree := by rw [Phrase.tree, h.tree]
  grammatical := ⟨hfits, h.grammatical⟩
  isSpelled := isSpelled_cons (by cases sign <;> decide) h.isSpelled

theorem not (h : d.Writes e) : (Phrase.not d).Writes (.not e) where
  tree := by rw [Phrase.tree, h.tree]
  grammatical := h.grammatical
  isSpelled := isSpelled_cons (by decide) h.isSpelled

theorem entry {x : String} (hx : IsName x) (h : d.Writes e) (hfits : d.Fits .sum) :
    (Phrase.entry x d).Writes (.entry x e) where
  tree := by rw [Phrase.tree, h.tree]
  grammatical := ⟨hfits, h.grammatical⟩
  isSpelled := List.forall_mem_cons.mpr ⟨isSpelled_ident hx,
    isSpelled_cons (by decide) (isSpelled_append h.isSpelled (by decide) nofun)⟩

theorem call {f : String} (hf : IsName f) {es : List Expr} {write : Expr → Phrase}
    (h : ∀ e ∈ es, (write e).Writes e ∧ (write e).Fits .sum) :
    (Phrase.call f (es.map write)).Writes (.call f es) where
  tree := by
    rw [Phrase.tree, trees_eq_map, map_map_eq_self fun e he => (h e he).1.tree]
  grammatical := (allGrammatical_iff _).mpr (List.forall_mem_map.mpr fun e he =>
    ⟨(h e he).2, (h e he).1.grammatical⟩)
  isSpelled := by
    rw [yield, yields_eq_map]
    have hwords := isSpelled_joined (k := .comma) (by decide) fun e he => (h e he).1.isSpelled
    exact List.forall_mem_cons.mpr ⟨isSpelled_ident hf,
      isSpelled_cons (by decide) (isSpelled_append hwords (by decide) nofun)⟩

theorem enclosedNot (h : d.Writes e) : d.enclosedNot.Writes e := by
  induction d using Phrase.enclosedNot.induct generalizing e with
  | case1 d => exact h.parens
  | case2 op l r ih =>
    obtain ⟨rfl, ⟨hleft, hright, hnot, hgl, hgr⟩, hspelled⟩ := h
    simp only [yield, List.forall_mem_cons, List.forall_mem_append] at hspelled
    obtain ⟨hsl, -, hsr⟩ := hspelled
    have hl : l.Writes l.tree := ⟨rfl, hgl, hsl⟩
    have hr : r.enclosedNot.Writes r.tree := ih ⟨rfl, hgr, hsr⟩
    exact hl.logical hr hleft (fits_enclosedNot hright) hnot
  | case3 d hd hd' =>
    rw [Phrase.enclosedNot.eq_3 d hd hd']
    exact h

theorem shielded (h : d.Writes e) (σ : Shielding) : (σ.shielded d).Writes e := by
  cases σ with
  | whole =>
    rw [shielded_whole]
    split
    · exact h.parens
    · exact h
  | edge => exact h.enclosedNot

end Writes
end Phrase

namespace Expr

mutual

/-- **An expression is written as a grammatical phrase for it**, with spellings
throughout. -/
theorem phrase_writes (σ : Shielding) : ∀ e : Expr, e.Printable → (e.phrase σ).Writes e
  | arith op l r, h => by
    obtain ⟨hl, hr⟩ := h
    have hleft := (phrase_writes σ l hl).enclosed op.precedence
    have hright := (phrase_writes σ r hr).enclosed op.precedence.tighter
    exact hleft.arith hright (Phrase.fits_enclosed ..) (Phrase.fits_enclosed ..)
  | signed sign e, h => ((phrase_writes σ e h).enclosed .sign).signed (Phrase.fits_enclosed ..)
  | number (.int i), h => by
    obtain ⟨hi, hword⟩ := h
    exact ⟨rfl, Decimal.readInt_intText hi hword,
      List.forall_mem_singleton.mpr (Terminal.isSpelled_int hi hword)⟩
  | number (.float _), h => h.elim
  | var x, h => ⟨rfl, trivial, List.forall_mem_singleton.mpr (Terminal.isSpelled_ident h)⟩
  | entry a i, h =>
    ((phrase_writes σ i h.2).enclosed .sum).entry h.1 (Phrase.fits_enclosed ..)
  | call f es, h => by
    obtain ⟨hf, hes⟩ := h
    rw [phrase, phrases_eq_map]
    exact .call hf fun e he =>
      ⟨(phrases_write σ es hes e he).enclosed .sum, Phrase.fits_enclosed ..⟩
  | compare op l r, h => by
    obtain ⟨hl, hr⟩ := h
    have hleft := (phrase_writes σ l hl).enclosed .sum
    have hright := (phrase_writes σ r hr).enclosed .sum
    exact hleft.compare hright (Phrase.fits_enclosed ..) (Phrase.fits_enclosed ..)
  | logical op l r, h => by
    obtain ⟨hl, hr⟩ := h
    have hleft := ((phrase_writes σ l hl).enclosed op.precedence).shielded σ
    have hright := (phrase_writes σ r hr).enclosed op.precedence.tighter
    exact hleft.logical hright (Phrase.fits_shielded (Phrase.fits_enclosed ..))
      (Phrase.fits_enclosed ..) (Phrase.endsInNot_shielded ..)
  | not e, h => (phrase_writes σ e h).not

theorem phrases_write (σ : Shielding) :
    ∀ es : List Expr, AllPrintable es → ∀ e ∈ es, (e.phrase σ).Writes e
  | [], _ => nofun
  | e :: es, h => List.forall_mem_cons.mpr ⟨phrase_writes σ e h.1, phrases_write σ es h.2⟩

end

/-- The two ways to keep a `not` apart from the connective behind it. -/
example : let e : Expr := .logical .or (.logical .and (.var "a") (.not (.var "b"))) (.var "c")
    Terminal.spaced (e.phrase .whole).yield = "( a and not b ) or c".toList ∧
      Terminal.spaced (e.phrase .edge).yield = "a and ( not b ) or c".toList := by
  decide

end Expr
end SyntaxGraph
