/-
# An expression is told by its line

An operand shows where it ends, and so the text of an expression shows where its
first operand ends, whether a symbol follows, and where the second operand ends.

An operand ends at a space, at a closing bracket or at a comma. A whole
expression ends at the latter two only, since a space would go on with it. Only
`not` starts an expression with a word that is followed by a space, and it is no
name.

Key definitions: `Expr.EndsOperand`, `Expr.EndsInline`, `Expr.OperandTold`,
`Expr.InlineTold`.
Key theorems: `Expr.told`, `Expr.inlineText_inj`.
-/
import SyntaxGraph.Proofs.Outline.Inline

namespace SyntaxGraph
namespace Expr

/-! ### What follows an expression -/

/-- An operand may end before the text: at its end, at a space, at a closing bracket
or at a comma. -/
def EndsOperand (rest : List Char) : Prop :=
  ∀ c ∈ rest.head?, c ∈ [' ', ')', ']', ',']

/-- An expression may end before the text: at its end, at a closing bracket or at a comma. -/
def EndsInline (rest : List Char) : Prop :=
  ∀ c ∈ rest.head?, c ∈ [')', ']', ',']

variable {rest : List Char}

theorem EndsInline.endsOperand (h : EndsInline rest) : EndsOperand rest :=
  fun c hc => List.mem_cons_of_mem _ (h c hc)

theorem endsOperand_space (rest : List Char) : EndsOperand (' ' :: rest) := by
  rintro _ ⟨⟩
  decide

theorem endsInline_nil : EndsInline [] :=
  fun _ h => nomatch h

theorem endsInline_cons {c : Char} (hc : c ∈ [')', ']', ',']) (rest : List Char) :
    EndsInline (c :: rest) := by
  rintro _ ⟨⟩
  exact hc

theorem EndsInline.ne_space (h : EndsInline rest) (cs : List Char) : rest ≠ ' ' :: cs := by
  rintro rfl
  exact absurd (h ' ' rfl) (by decide)

/-- A run of characters of a kind that ends no operand goes on to the end of the operand. -/
theorem EndsOperand.head_eq_false (h : EndsOperand rest) {p : Char → Bool}
    (hp : [' ', ')', ']', ','].any p = false) : rest.head?.any p = false := by
  cases rest with
  | nil => rfl
  | cons c cs => exact Bool.eq_false_iff.mpr (List.any_eq_false.mp hp c (h c rfl))

/-- Before a text that ends operands, no other operand has the text of `e`, and none
ends elsewhere. -/
def OperandTold (e : Expr) : Prop :=
  ∀ (f : Expr) (r s : List Char), f.Printable → EndsOperand r → EndsOperand s →
    e.operandChars ++ r = f.operandChars ++ s → e = f ∧ r = s

/-- Before a text that ends expressions, no other expression has the text of `e`, and
none ends elsewhere. -/
def InlineTold (e : Expr) : Prop :=
  ∀ (f : Expr) (r s : List Char), f.Printable → EndsInline r → EndsInline s →
    e.inlineChars ++ r = f.inlineChars ++ s → e = f ∧ r = s

/-! ### Names -/

theorem nameTail_eq_some {e : Expr} (h : e.opening = .letter) :
    ∃ x tail, e.nameTail = some (x, tail) := by
  cases e with
  | var | entry | call => exact ⟨_, _, rfl⟩
  | _ => cases h

/-- Nothing that goes on with a name follows it in an operand. -/
theorem head_nameTail {e : Expr} {x : String} {tail : List Char} (h : e.nameTail = some (x, tail))
    (hrest : EndsOperand rest) : (tail ++ rest).head?.any Token.isWordChar = false := by
  cases e with
  | var y =>
    cases h
    exact hrest.head_eq_false (by decide)
  | entry a i =>
    cases h
    rfl
  | call f es =>
    cases h
    rfl
  | _ => cases h

/-- Operands that start with names start with the same name, and go on alike. -/
theorem nameTail_inj {e f : Expr} {x y : String} {u v r s : List Char} (he : e.Printable)
    (hf : f.Printable) (hx : e.nameTail = some (x, u)) (hy : f.nameTail = some (y, v))
    (hr : EndsOperand r) (hs : EndsOperand s)
    (h : e.operandChars ++ r = f.operandChars ++ s) : x = y ∧ u ++ r = v ++ s := by
  rw [operandChars_of_nameTail hx, operandChars_of_nameTail hy, List.append_assoc,
    List.append_assoc] at h
  obtain ⟨hname, htail⟩ := run_append_inj (he.isName hx).isWordChar
    (hf.isName hy).isWordChar (head_nameTail hx hr) (head_nameTail hy hs) h
  exact ⟨String.toList_inj.mp hname, htail⟩

/-- No operand reads as the word `not`, for no name does. -/
theorem operandChars_ne_not {e : Expr} {r s : List Char} (he : e.Printable) (hr : EndsOperand r) :
    e.operandChars ++ r ≠ "not".toList ++ ' ' :: s := by
  intro h
  obtain ⟨c, cs, hcs, hc⟩ := exists_opening he
  rw [hcs] at h
  obtain rfl : c = 'n' := (List.cons.inj h).1
  obtain ⟨x, tail, hx⟩ := nameTail_eq_some (Option.some.inj hc).symm
  rw [← hcs, operandChars_of_nameTail hx, List.append_assoc] at h
  have hword : ∀ c ∈ "not".toList, Token.isWordChar c = true := List.all_eq_true.mp (by decide)
  obtain ⟨hname, -⟩ := run_append_inj (he.isName hx).isWordChar hword (head_nameTail hx hr) rfl h
  have hnot : x = "not" := String.toList_inj.mp hname
  exact absurd (hnot ▸ he.isName hx) (by decide)

/-! ### Operands -/

/-- An expression in parentheses ends where they close. -/
theorem operandTold_of_compound {e : Expr} (hcompound : e.isCompound = true) (he : e.Printable)
    (htold : e.InlineTold) : e.OperandTold := by
  intro f r s hf _ _ h
  have hopening := opening_eq he hf h
  rw [opening_eq_parenthesis.mpr hcompound] at hopening
  have hfcompound : f.isCompound = true := opening_eq_parenthesis.mp hopening.symm
  rw [operandChars_of_compound hcompound, operandChars_of_compound hfcompound] at h
  simp only [List.cons_append, List.append_assoc, List.nil_append, List.cons.injEq, true_and] at h
  obtain ⟨hef, hrest⟩ := htold f _ _ hf (endsInline_cons (by decide) r) (endsInline_cons (by decide) s) h
  exact ⟨hef, (List.cons.inj hrest).2⟩

theorem operandTold_signed {sign : Sign} {e : Expr} (he : e.Printable) (htold : e.OperandTold) :
    (Expr.signed sign e).OperandTold := by
  intro f r s hf hr hs h
  have hopening := opening_eq (e := .signed sign e) he hf h
  cases f with
  | signed sign' f =>
    rw [operandChars_signed, operandChars_signed] at h
    obtain ⟨rfl, hoperand⟩ : sign = sign' ∧ e.operandChars ++ r = f.operandChars ++ s := by
      cases sign <;> cases sign' <;> simp_all [Sign.symbol]
    obtain ⟨rfl, hrest⟩ := htold f _ _ hf hr hs hoperand
    exact ⟨rfl, hrest⟩
  | _ => cases hopening

theorem operandTold_number {n : Number} (hn : (Expr.number n).Printable) :
    (Expr.number n).OperandTold := by
  intro f r s hf hr hs h
  have hopening := opening_eq hn hf h
  cases f with
  | number m =>
    cases n with
    | float => exact hn.elim
    | int i =>
      cases m with
      | float => exact hf.elim
      | int j =>
        have hdigits : ∀ k, ∀ c ∈ Decimal.digits k, c.isDigit = true :=
          fun k => (Token.isDigits_iff.mp (Decimal.isDigits_digits k)).2
        rw [operandChars_int hn.1, operandChars_int hf.1] at h
        obtain ⟨hij, hrest⟩ := run_append_inj (hdigits _) (hdigits _)
          (hr.head_eq_false (by decide)) (hs.head_eq_false (by decide)) h
        have hvalue : i.toNat = j.toNat := by
          rw [← Decimal.value_digits i.toNat, hij, Decimal.value_digits]
        obtain rfl : i = j := by
          have := hn.1
          have := hf.1
          omega
        exact ⟨rfl, hrest⟩
  | _ => cases hopening

/-! ### Arguments -/

theorem operandChars_ne_close {e : Expr} (he : e.Printable) (r s : List Char) :
    ')' :: r ≠ e.operandChars ++ s := by
  intro h
  obtain ⟨c, cs, hcs, hc⟩ := exists_opening he
  rw [hcs] at h
  obtain rfl : ')' = c := (List.cons.inj h).1
  cases hc

theorem inlineChars_ne_close {e : Expr} (he : e.Printable) (r s : List Char) :
    ')' :: r ≠ e.inlineChars ++ s := by
  intro h
  rcases e.inline_cases with ⟨l, op, r', rfl⟩ | ⟨f, rfl⟩ | hsimple
  · rw [inlineChars_join, List.append_assoc] at h
    exact operandChars_ne_close ((op.printable_join).mp he).1 _ _ h
  · rw [inlineChars_not] at h
    cases h
  · rw [← operandChars_of_simple hsimple] at h
    exact operandChars_ne_close he _ _ h

theorem endsInline_furtherChars (es : List Expr) (r : List Char) :
    EndsInline (furtherChars es ++ ')' :: r) := by
  cases es with
  | nil => exact endsInline_cons (by decide) r
  | cons => exact endsInline_cons (by decide) _

theorem furtherChars_inj {r s : List Char} : ∀ {es fs : List Expr}, (∀ e ∈ es, e.InlineTold) →
    (∀ f ∈ fs, f.Printable) → furtherChars es ++ ')' :: r = furtherChars fs ++ ')' :: s →
    es = fs ∧ r = s
  | [], [], _, _, h => ⟨rfl, (List.cons.inj h).2⟩
  | [], f :: fs, _, _, h => absurd (List.cons.inj h).1 (by decide)
  | e :: es, [], _, _, h => absurd (List.cons.inj h).1 (by decide)
  | e :: es, f :: fs, htold, hprintable, h => by
    obtain ⟨he, hes⟩ := List.forall_mem_cons.mp htold
    obtain ⟨hf, hfs⟩ := List.forall_mem_cons.mp hprintable
    simp only [furtherChars, List.flatMap_cons, List.cons_append, List.append_assoc, List.cons.injEq,
      true_and] at h
    obtain ⟨rfl, hrest⟩ := he f _ _ hf (endsInline_furtherChars es r) (endsInline_furtherChars fs s) h
    obtain ⟨rfl, hrs⟩ := furtherChars_inj hes hfs hrest
    exact ⟨rfl, hrs⟩

/-- Arguments show where they end. -/
theorem argumentChars_inj {r s : List Char} {es fs : List Expr} (htold : ∀ e ∈ es, e.InlineTold)
    (hes : ∀ e ∈ es, e.Printable) (hfs : ∀ f ∈ fs, f.Printable)
    (h : argumentChars es ++ ')' :: r = argumentChars fs ++ ')' :: s) : es = fs ∧ r = s := by
  cases es with
  | nil =>
    cases fs with
    | nil => exact ⟨rfl, (List.cons.inj h).2⟩
    | cons f fs =>
      rw [argumentChars, argumentChars, List.append_assoc] at h
      exact absurd h (inlineChars_ne_close (hfs f (List.mem_cons_self ..)) _ _)
  | cons e es =>
    cases fs with
    | nil =>
      rw [argumentChars, argumentChars, List.append_assoc] at h
      exact absurd h.symm (inlineChars_ne_close (hes e (List.mem_cons_self ..)) _ _)
    | cons f fs =>
      obtain ⟨he, htold⟩ := List.forall_mem_cons.mp htold
      obtain ⟨hf, hprintable⟩ := List.forall_mem_cons.mp hfs
      rw [argumentChars, argumentChars, List.append_assoc, List.append_assoc] at h
      obtain ⟨rfl, hrest⟩ := he f _ _ hf (endsInline_furtherChars es r) (endsInline_furtherChars fs s) h
      obtain ⟨rfl, hrs⟩ := furtherChars_inj htold hprintable hrest
      exact ⟨rfl, hrs⟩

theorem operandTold_var {x : String} (hx : IsName x) : (Expr.var x).OperandTold := by
  intro f r s hf hr hs h
  have hopening := opening_eq (e := .var x) hx hf h
  obtain ⟨y, tail, hy⟩ := nameTail_eq_some hopening.symm
  obtain ⟨rfl, hrest⟩ := nameTail_inj (e := .var x) hx hf rfl hy hr hs h
  cases f with
  | var =>
    cases hy
    exact ⟨rfl, hrest⟩
  | entry =>
    cases hy
    have hrest : r = '[' :: _ := hrest
    exact absurd (hr '[' (hrest ▸ rfl)) (by decide)
  | call =>
    cases hy
    have hrest : r = '(' :: _ := hrest
    exact absurd (hr '(' (hrest ▸ rfl)) (by decide)
  | _ => cases hy

theorem operandTold_entry {a : String} {i : Expr} (h : (Expr.entry a i).Printable)
    (htold : i.InlineTold) : (Expr.entry a i).OperandTold := by
  intro f r s hf hr hs heq
  have hopening := opening_eq h hf heq
  obtain ⟨y, tail, hy⟩ := nameTail_eq_some hopening.symm
  obtain ⟨rfl, hrest⟩ := nameTail_inj h hf rfl hy hr hs heq
  cases f with
  | var =>
    cases hy
    have hrest : '[' :: _ = s := hrest
    exact absurd (hs '[' (hrest ▸ rfl)) (by decide)
  | entry b j =>
    cases hy
    simp only [List.cons_append, List.append_assoc, List.nil_append, List.cons.injEq, true_and]
      at hrest
    obtain ⟨rfl, htail⟩ := htold j _ _ hf.2 (endsInline_cons (by decide) r)
      (endsInline_cons (by decide) s) hrest
    exact ⟨rfl, (List.cons.inj htail).2⟩
  | call =>
    cases hy
    cases hrest
  | _ => cases hy

theorem operandTold_call {f : String} {es : List Expr} (h : (Expr.call f es).Printable)
    (htold : ∀ e ∈ es, e.InlineTold) : (Expr.call f es).OperandTold := by
  intro g r s hg hr hs heq
  have hopening := opening_eq h hg heq
  obtain ⟨y, tail, hy⟩ := nameTail_eq_some hopening.symm
  obtain ⟨rfl, hrest⟩ := nameTail_inj h hg rfl hy hr hs heq
  cases g with
  | var =>
    cases hy
    have hrest : '(' :: _ = s := hrest
    exact absurd (hs '(' (hrest ▸ rfl)) (by decide)
  | entry =>
    cases hy
    cases hrest
  | call g fs =>
    cases hy
    simp only [List.cons_append, List.append_assoc, List.nil_append, List.cons.injEq, true_and]
      at hrest
    obtain ⟨rfl, htail⟩ := argumentChars_inj htold (allPrintable_iff.mp h.2)
      (allPrintable_iff.mp hg.2) hrest
    exact ⟨rfl, htail⟩
  | _ => cases hy

/-! ### Whole expressions -/

theorem head_space (rest : List Char) :
    ((' ' :: rest).head?.any fun c => decide (c ≠ ' ')) = false := rfl

/-- A symbol and the second operand show where they end. -/
theorem joined_inj {l r l' r' : Expr} {op op' : Infix} {u v : List Char}
    (hf : (op'.join l' r').Printable) (hl : l.OperandTold) (hr : r.OperandTold)
    (hu : EndsInline u) (hv : EndsInline v)
    (h : (op.join l r).inlineChars ++ u = (op'.join l' r').inlineChars ++ v) :
    op.join l r = op'.join l' r' ∧ u = v := by
  obtain ⟨hleft, hright⟩ := op'.printable_join.mp hf
  simp only [inlineChars_join, List.append_assoc, List.cons_append] at h
  obtain ⟨rfl, hrest⟩ := hl l' _ _ hleft (endsOperand_space _) (endsOperand_space _) h
  obtain ⟨hsymbol, hsecond⟩ := run_append_inj (forall_ne_of_not_mem op.space_not_mem_symbol)
    (forall_ne_of_not_mem op'.space_not_mem_symbol) (head_space _) (head_space _)
    (List.cons.inj hrest).2
  obtain rfl : op = op' := Infix.symbol_injective (String.toList_inj.mp hsymbol)
  obtain ⟨rfl, hend⟩ := hr r' _ _ hright hu.endsOperand hv.endsOperand (List.cons.inj hsecond).2
  exact ⟨rfl, hend⟩

theorem inlineTold_join {l r : Expr} {op : Infix} (he : (op.join l r).Printable)
    (hl : l.OperandTold) (hr : r.OperandTold) : (op.join l r).InlineTold := by
  intro f u v hf hu hv h
  rcases f.inline_cases with ⟨l', op', r', rfl⟩ | ⟨f, rfl⟩ | hsimple
  · exact joined_inj hf hl hr hu hv h
  · rw [inlineChars_join, inlineChars_not, List.append_assoc, List.append_assoc] at h
    exact absurd h (operandChars_ne_not (op.printable_join.mp he).1 (endsOperand_space _))
  · rw [inlineChars_join, List.append_assoc, ← operandChars_of_simple hsimple] at h
    obtain ⟨-, hrest⟩ := hl f _ _ hf (endsOperand_space _) hv.endsOperand h
    exact absurd hrest.symm (hv.ne_space _)

theorem inlineTold_not {e : Expr} (htold : e.OperandTold) :
    (Expr.not e).InlineTold := by
  intro f u v hf hu hv h
  rcases f.inline_cases with ⟨l, op, r, rfl⟩ | ⟨f, rfl⟩ | hsimple
  · rw [inlineChars_join, inlineChars_not, List.append_assoc, List.append_assoc] at h
    exact absurd h.symm (operandChars_ne_not (op.printable_join.mp hf).1 (endsOperand_space _))
  · rw [inlineChars_not, inlineChars_not, List.append_assoc, List.append_assoc,
      List.append_cancel_left_eq] at h
    obtain ⟨rfl, hrest⟩ := htold f _ _ hf hu.endsOperand hv.endsOperand (List.cons.inj h).2
    exact ⟨rfl, hrest⟩
  · rw [inlineChars_not, List.append_assoc, ← operandChars_of_simple hsimple] at h
    exact absurd h.symm (operandChars_ne_not hf hv.endsOperand)

theorem inlineTold_of_simple {e : Expr} (hsimple : e.isCompound = false) (he : e.Printable)
    (htold : e.OperandTold) : e.InlineTold := by
  intro f u v hf hu hv h
  rw [← operandChars_of_simple hsimple] at h
  rcases f.inline_cases with ⟨l, op, r, rfl⟩ | ⟨f, rfl⟩ | hfsimple
  · rw [inlineChars_join, List.append_assoc] at h
    obtain ⟨-, hrest⟩ := htold l _ _ (op.printable_join.mp hf).1 hu.endsOperand (endsOperand_space _) h
    exact absurd hrest (hu.ne_space _)
  · rw [inlineChars_not, List.append_assoc] at h
    exact absurd h (operandChars_ne_not he hu.endsOperand)
  · rw [← operandChars_of_simple hfsimple] at h
    exact htold f _ _ hf hu.endsOperand hv.endsOperand h

/-- **The text of a printable expression tells the expression**, as an operand and as a
whole, before any text that ends it. -/
theorem told (e : Expr) : e.Printable → e.OperandTold ∧ e.InlineTold := by
  -- in parentheses the whole expression tells the operand, without them it is the operand
  have hcompound : ∀ {e : Expr}, e.isCompound = true → e.Printable → e.InlineTold →
      e.OperandTold ∧ e.InlineTold :=
    fun hcompound he htold => ⟨operandTold_of_compound hcompound he htold, htold⟩
  have hsimple : ∀ {e : Expr}, e.isCompound = false → e.Printable → e.OperandTold →
      e.OperandTold ∧ e.InlineTold :=
    fun hsimple he htold => ⟨htold, inlineTold_of_simple hsimple he htold⟩
  induction e using Expr.induction with
  | step e ih =>
    intro he
    rcases e.inline_cases with ⟨l, op, r, rfl⟩ | ⟨f, rfl⟩ | hnot
    · obtain ⟨hl, hr⟩ := op.printable_join.mp he
      obtain ⟨hleft, hright⟩ := op.mem_pieces_join (l := l) (r := r)
      exact hcompound (by cases op <;> rfl) he
        (inlineTold_join he (ih l hleft hl).1 (ih r hright hr).1)
    · exact hcompound rfl he (inlineTold_not (ih f (.head _) he).1)
    · refine hsimple hnot he ?_
      cases e with
      | signed sign e => exact operandTold_signed he (ih e (.head _) he).1
      | number n => exact operandTold_number he
      | var x => exact operandTold_var he
      | entry a i => exact operandTold_entry he (ih i (.head _) he.2).2
      | call f es =>
        have hes := allPrintable_iff.mp he.2
        exact operandTold_call he fun e hmem =>
          (ih e (List.mem_map_of_mem hmem) (hes e hmem)).2
      | _ => cases hnot

/-- Printable expressions on one line differ if the expressions do. -/
theorem inlineText_inj {e f : Expr} (he : e.Printable) (hf : f.Printable)
    (h : e.inlineText = f.inlineText) : e = f := by
  have hchars : e.inlineChars ++ [] = f.inlineChars ++ [] := by
    rw [inlineChars, inlineChars, h]
  exact ((e.told he).2 f _ _ hf endsInline_nil endsInline_nil hchars).1

end Expr
end SyntaxGraph
