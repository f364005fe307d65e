/-
# The characters of an expression on one line

An operand is an expression in parentheses, or a sign with an operand, a number,
or a name with what is in its brackets. Which of these it is shows by its first
character. A whole expression has a symbol between two operands, or it is a `not`,
or it is an operand that needs no parentheses. Nothing in it ends the line.

Key definitions: `Infix`, `Expr.inlineChars`, `Expr.operandChars`, `Opening`.
Key theorems: `Expr.exists_opening`, `Expr.newline_not_mem_inlineChars`.
-/
import SyntaxGraph.Proofs.Source.Expr
import SyntaxGraph.Proofs.Tree.Throughout
import SyntaxGraph.Tree.Inline

namespace SyntaxGraph

/-! ### Symbols between two operands -/

/-- What stands between two operands. -/
inductive Infix where
  | arith (op : Arith)
  | compare (op : Comparison)
  | logical (op : Connective)
  deriving DecidableEq

namespace Infix

/-- The symbol or the word for it. -/
def symbol : Infix → String
  | arith op => op.symbol
  | compare op => op.symbol
  | logical op => op.word

/-- The expression with these operands. -/
def join (l r : Expr) : Infix → Expr
  | arith op => .arith op l r
  | compare op => .compare op l r
  | logical op => .logical op l r

/-- All of them. -/
def all : List Infix :=
  [.arith .add, .arith .sub, .arith .mul, .arith .div, .compare .lt, .compare .le, .compare .gt,
    .compare .ge, .compare .eq, .compare .ne, .logical .and, .logical .or]

theorem mem_all (op : Infix) : op ∈ all := by
  rcases op with op | op | op <;> cases op <;> decide

theorem symbol_injective : Function.Injective symbol :=
  injective_of_find? mem_all (by decide)

theorem space_not_mem_symbol (op : Infix) : ' ' ∉ op.symbol.toList := by
  rcases op with op | op | op <;> cases op <;> decide

theorem printable_join {l r : Expr} (op : Infix) :
    (op.join l r).Printable ↔ l.Printable ∧ r.Printable := by
  cases op <;> exact Iff.rfl

theorem mem_pieces_join {l r : Expr} (op : Infix) :
    .expression l ∈ (op.join l r).pieces ∧ .expression r ∈ (op.join l r).pieces := by
  cases op <;> simp [join, Expr.pieces]

end Infix

theorem IsName.isWordChar {x : String} (h : IsName x) : ∀ c ∈ x.toList, Token.isWordChar c = true :=
  List.all_eq_true.mp h.isWord.2

namespace Expr

/-- An expression has a symbol between two operands, or it is a `not`, or it needs no
parentheses as an operand. -/
theorem inline_cases (e : Expr) :
    (∃ l op r, e = Infix.join l r op) ∨ (∃ f, e = .not f) ∨ e.isCompound = false := by
  cases e with
  | arith op l r => exact .inl ⟨l, .arith op, r, rfl⟩
  | compare op l r => exact .inl ⟨l, .compare op, r, rfl⟩
  | logical op l r => exact .inl ⟨l, .logical op, r, rfl⟩
  | not f => exact .inr (.inl ⟨f, rfl⟩)
  | _ => exact .inr (.inr rfl)

/-! ### The characters of an expression -/

/-- The characters of an expression on one line. -/
def inlineChars (e : Expr) : List Char :=
  e.inlineText.toList

/-- The characters of an expression as an operand. -/
def operandChars (e : Expr) : List Char :=
  (e.asOperand e.inlineText).toList

theorem operandChars_of_compound {e : Expr} (h : e.isCompound = true) :
    e.operandChars = '(' :: (e.inlineChars ++ [')']) := by
  simp [operandChars, asOperand, h, inlineChars]

theorem operandChars_of_simple {e : Expr} (h : e.isCompound = false) :
    e.operandChars = e.inlineChars := by
  simp [operandChars, asOperand, h, inlineChars]

theorem inlineChars_join (l r : Expr) (op : Infix) : (op.join l r).inlineChars =
    l.operandChars ++ ' ' :: (op.symbol.toList ++ ' ' :: r.operandChars) := by
  cases op <;> simp [Infix.join, inlineChars, inlineText, operandChars, Infix.symbol]

theorem inlineChars_not (e : Expr) :
    (Expr.not e).inlineChars = "not".toList ++ ' ' :: e.operandChars := by
  simp [inlineChars, inlineText, operandChars]

theorem operandChars_signed (sign : Sign) (e : Expr) :
    (Expr.signed sign e).operandChars = sign.symbol.toList ++ e.operandChars := by
  rw [operandChars_of_simple rfl, inlineChars, inlineText, String.toList_append, operandChars]

theorem operandChars_int {i : Int} (h : 0 ≤ i) :
    (Expr.number (.int i)).operandChars = Decimal.digits i.toNat := by
  rw [operandChars_of_simple rfl, inlineChars, inlineText, Number.text, Decimal.intText_of_nonneg h]

/-- The characters behind the first argument. -/
def furtherChars (es : List Expr) : List Char :=
  es.flatMap fun e => ',' :: ' ' :: e.inlineChars

/-- The characters of arguments. -/
def argumentChars : List Expr → List Char
  | [] => []
  | e :: es => e.inlineChars ++ furtherChars es

theorem inlineTexts_eq_map (es : List Expr) : inlineTexts es = es.map inlineText := by
  induction es with
  | nil => rfl
  | cons e es ih => rw [inlineTexts, ih, List.map_cons]

theorem toList_intercalate_inlineTexts (es : List Expr) :
    (", ".intercalate (inlineTexts es)).toList = argumentChars es := by
  cases es with
  | nil => rfl
  | cons e es =>
    induction es generalizing e with
    | nil => simp [inlineTexts, argumentChars, furtherChars, inlineChars]
    | cons f es ih =>
      rw [inlineTexts_eq_map, List.map_cons, List.map_cons, String.intercalate_cons_cons,
        ← List.map_cons, ← inlineTexts_eq_map, String.toList_append, ih]
      simp [argumentChars, furtherChars, inlineChars]

/-- What follows the name that an operand starts with. -/
def nameTail : Expr → Option (String × List Char)
  | var x => some (x, [])
  | entry a i => some (a, '[' :: (i.inlineChars ++ [']']))
  | call f es => some (f, '(' :: (argumentChars es ++ [')']))
  | _ => none

theorem operandChars_of_nameTail {e : Expr} {x : String} {tail : List Char}
    (h : e.nameTail = some (x, tail)) : e.operandChars = x.toList ++ tail := by
  cases e with
  | var y =>
    cases h
    simp [operandChars, asOperand, isCompound, inlineText]
  | entry a i =>
    cases h
    simp [operandChars, asOperand, isCompound, inlineText, inlineChars]
  | call f es =>
    cases h
    rw [operandChars_of_simple rfl, inlineChars, inlineText, String.toList_append,
      String.toList_append, String.toList_append, toList_intercalate_inlineTexts]
    simp
  | _ => cases h

theorem Printable.isName {e : Expr} (he : e.Printable) {x : String} {tail : List Char}
    (h : e.nameTail = some (x, tail)) : IsName x := by
  cases e with
  | var y =>
    cases h
    exact he
  | entry a i =>
    cases h
    exact he.1
  | call f es =>
    cases h
    exact he.1
  | _ => cases h

/-! ### What an operand starts with -/

/-- The ways an operand starts. -/
inductive Opening where
  | parenthesis | sign | digit | letter

/-- The first character of an operand tells how it starts. -/
def Opening.of (c : Char) : Option Opening :=
  if c = '(' then some parenthesis
  else if c = '+' ∨ c = '-' then some sign
  else if c.isDigit then some digit
  else if c.isAlpha then some letter
  else none

theorem Opening.of_isDigit {c : Char} (h : c.isDigit = true) : of c = some digit := by
  have hparenthesis : c ≠ '(' := Token.ne_of_holds h (by decide)
  have hsign : ¬(c = '+' ∨ c = '-') :=
    not_or.mpr ⟨Token.ne_of_holds h (by decide), Token.ne_of_holds h (by decide)⟩
  rw [of, if_neg hparenthesis, if_neg hsign, if_pos h]

theorem Opening.of_isAlpha {c : Char} (h : c.isAlpha = true) : of c = some letter := by
  have hparenthesis : c ≠ '(' := Token.ne_of_holds h (by decide)
  have hsign : ¬(c = '+' ∨ c = '-') :=
    not_or.mpr ⟨Token.ne_of_holds h (by decide), Token.ne_of_holds h (by decide)⟩
  have hdigit : ¬c.isDigit = true := by simp [Token.isDigit_of_isAlpha h]
  rw [of, if_neg hparenthesis, if_neg hsign, if_neg hdigit, if_pos h]

/-- What the expression starts with as an operand. -/
def opening : Expr → Opening
  | arith .. | compare .. | logical .. | not _ => .parenthesis
  | signed .. => .sign
  | number _ => .digit
  | var _ | entry .. | call .. => .letter

theorem opening_eq_parenthesis {e : Expr} : e.opening = .parenthesis ↔ e.isCompound = true := by
  cases e <;> simp [opening, isCompound]

theorem exists_opening {e : Expr} (he : e.Printable) :
    ∃ c cs, e.operandChars = c :: cs ∧ Opening.of c = some e.opening := by
  have hname : ∀ {x tail}, e.nameTail = some (x, tail) → ∃ c cs, e.operandChars = c :: cs ∧
      Opening.of c = some .letter := by
    intro x tail h
    obtain ⟨hhead, -⟩ := (he.isName h).isWord
    rw [operandChars_of_nameTail h]
    cases hx : x.toList with
    | nil => simp [hx] at hhead
    | cons c cs => exact ⟨c, cs ++ tail, rfl, Opening.of_isAlpha (by simpa [hx] using hhead)⟩
  cases e with
  | arith | compare | logical | not => exact ⟨'(', _, operandChars_of_compound rfl, rfl⟩
  | signed sign e =>
    rw [operandChars_signed]
    cases sign with
    | plus => exact ⟨'+', _, rfl, rfl⟩
    | minus => exact ⟨'-', _, rfl, rfl⟩
  | number n =>
    cases n with
    | float => exact he.elim
    | int i =>
      obtain ⟨hne, hdigits⟩ := Token.isDigits_iff.mp (Decimal.isDigits_digits i.toNat)
      rw [operandChars_int he.1]
      cases hds : Decimal.digits i.toNat with
      | nil => exact absurd hds hne
      | cons c cs => exact ⟨c, cs, rfl, Opening.of_isDigit (hdigits c (hds ▸ List.mem_cons_self ..))⟩
  | var x => exact hname rfl
  | entry a i => exact hname rfl
  | call f es => exact hname rfl

theorem opening_eq {e f : Expr} {r s : List Char} (he : e.Printable) (hf : f.Printable)
    (h : e.operandChars ++ r = f.operandChars ++ s) : e.opening = f.opening := by
  obtain ⟨c, cs, hcs, hc⟩ := exists_opening he
  obtain ⟨d, ds, hds, hd⟩ := exists_opening hf
  rw [hcs, hds] at h
  obtain rfl : c = d := (List.cons.inj h).1
  exact Option.some.inj (hc.symm.trans hd)

/-! ### One line -/

theorem newline_not_mem_name {x : String} (h : IsName x) : '\n' ∉ x.toList :=
  fun hmem => absurd (h.isWordChar _ hmem) (by decide)

theorem newline_not_mem_operandChars {e : Expr} (h : '\n' ∉ e.inlineChars) :
    '\n' ∉ e.operandChars := by
  cases hcompound : e.isCompound with
  | true => simpa [operandChars_of_compound hcompound] using h
  | false => rwa [operandChars_of_simple hcompound]

theorem newline_not_mem_argumentChars {es : List Expr} (h : ∀ e ∈ es, '\n' ∉ e.inlineChars) :
    '\n' ∉ argumentChars es := by
  cases es with
  | nil => nofun
  | cons e es => simpa [argumentChars, furtherChars] using h

/-- A printable expression takes one line. -/
theorem newline_not_mem_inlineChars (e : Expr) : e.Printable → '\n' ∉ e.inlineChars := by
  induction e using Expr.induction with
  | step e ih =>
    intro he
    rcases e.inline_cases with ⟨l, op, r, rfl⟩ | ⟨f, rfl⟩ | hsimple
    · obtain ⟨hl, hr⟩ := op.printable_join.mp he
      obtain ⟨hleft, hright⟩ := op.mem_pieces_join (l := l) (r := r)
      have hl := newline_not_mem_operandChars (ih l hleft hl)
      have hr := newline_not_mem_operandChars (ih r hright hr)
      have hop : '\n' ∉ op.symbol.toList := by
        rcases op with op | op | op <;> cases op <;> decide
      simp [inlineChars_join, hl, hr, hop]
    · have hf := newline_not_mem_operandChars (ih f (.head _) he)
      simp [inlineChars_not, hf]
    · rw [← operandChars_of_simple hsimple]
      cases e with
      | signed sign e =>
        have he := newline_not_mem_operandChars (ih e (.head _) he)
        have hsign : '\n' ∉ sign.symbol.toList := by cases sign <;> decide
        simp [operandChars_signed, hsign, he]
      | number n =>
        cases n with
        | float => exact he.elim
        | int i =>
          rw [operandChars_int he.1]
          intro hmem
          have hdigit := (Token.isDigits_iff.mp (Decimal.isDigits_digits i.toNat)).2 _ hmem
          exact absurd hdigit (by decide)
      | var x =>
        rw [operandChars_of_nameTail rfl]
        simp [newline_not_mem_name he]
      | entry a i =>
        rw [operandChars_of_nameTail rfl]
        simp [newline_not_mem_name he.1, ih i (.head _) he.2]
      | call f es =>
        have hes := newline_not_mem_argumentChars fun e hmem =>
          ih e (List.mem_map_of_mem hmem) (allPrintable_iff.mp he.2 e hmem)
        rw [operandChars_of_nameTail rfl]
        simp [newline_not_mem_name he.1, hes]
      | _ => cases hsimple

end Expr
end SyntaxGraph
