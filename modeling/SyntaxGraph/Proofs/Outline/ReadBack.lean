/-
# An expression is read back from its line

The line of an expression could stand in a source. It is the text of a phrase for
the expression, with parentheses around the operands that have an operator of their
own: such operands are tight enough for every place, and so are the signs, names and
numbers that stand without parentheses. Indices and arguments stand without
parentheses too, where the grammar takes sums only; so conditions cannot be read back
from there.

The text has no more spaces than it needs. No token in it is continued by what
stands behind it: signs are in front of operands, and no operand starts with `=`.

Key definitions: `Expr.inlinePhrase`, `Expr.SumsInBrackets`, `Terminal.Spells`, `Expr.Scans`.
Key theorems: `Expr.inlinePhrase_writes`, `Expr.scans_inline`, `parseSource_inlineText`.
-/
import SyntaxGraph.Proofs.Outline.Told
import SyntaxGraph.Proofs.Source.Program

namespace SyntaxGraph

/-! ### The phrase of a line -/

namespace Expr

/-- The phrase `d` for the expression as an operand, in parentheses if needed. -/
def asOperandPhrase (e : Expr) (d : Phrase) : Phrase :=
  if e.isCompound then .parens d else d

mutual

/-- The phrase that an expression is on one line. -/
def inlinePhrase : Expr → Phrase
  | arith op l r =>
    .arith op (l.asOperandPhrase l.inlinePhrase) (r.asOperandPhrase r.inlinePhrase)
  | signed sign e => .signed sign (e.asOperandPhrase e.inlinePhrase)
  | number (.int i) => .int (Decimal.intText i) i
  | number (.float x) => .float (Number.floatText x) x
  | var x => .var x
  | entry a i => .entry a i.inlinePhrase
  | call f es => .call f (inlinePhrases es)
  | compare op l r =>
    .compare op (l.asOperandPhrase l.inlinePhrase) (r.asOperandPhrase r.inlinePhrase)
  | logical op l r =>
    .logical op (l.asOperandPhrase l.inlinePhrase) (r.asOperandPhrase r.inlinePhrase)
  | not e => .not (e.asOperandPhrase e.inlinePhrase)

/-- The phrases that expressions are on one line. -/
def inlinePhrases : List Expr → List Phrase
  | [] => []
  | e :: es => e.inlinePhrase :: inlinePhrases es

end

@[simp] theorem inlinePhrases_eq_map (es : List Expr) : inlinePhrases es = es.map inlinePhrase := by
  induction es with
  | nil => rfl
  | cons e es ih => simp [inlinePhrases, ih]

/-- The phrase that an expression is as an operand. -/
def operandPhrase (e : Expr) : Phrase :=
  e.asOperandPhrase e.inlinePhrase

theorem operandPhrase_of_compound {e : Expr} (h : e.isCompound = true) :
    e.operandPhrase = .parens e.inlinePhrase :=
  if_pos h

theorem operandPhrase_of_simple {e : Expr} (h : e.isCompound = false) :
    e.operandPhrase = e.inlinePhrase :=
  if_neg (by simp [h])

/-- The expression is a comparison, a connective or a `not`. -/
def isCondition : Expr → Bool
  | compare .. | logical .. | not _ => true
  | _ => false

mutual

/-- No index and no argument in the expression is a condition. -/
def SumsInBrackets : Expr → Prop
  | arith _ l r | compare _ l r | logical _ l r => l.SumsInBrackets ∧ r.SumsInBrackets
  | signed _ e | not e => e.SumsInBrackets
  | number _ | var _ => True
  | entry _ i => i.isCondition = false ∧ i.SumsInBrackets
  | call _ es => AllSums es

/-- None of the expressions is a condition or has one in brackets. -/
def AllSums : List Expr → Prop
  | [] => True
  | e :: es => (e.isCondition = false ∧ e.SumsInBrackets) ∧ AllSums es

end

theorem allSums_iff {es : List Expr} :
    AllSums es ↔ ∀ e ∈ es, e.isCondition = false ∧ e.SumsInBrackets := by
  induction es with
  | nil => simp [AllSums]
  | cons e es ih => rw [AllSums, ih, List.forall_mem_cons]

/-! ### It is grammatical -/

theorem fits_operandPhrase (e : Expr) : e.operandPhrase.Fits .sign := by
  cases hcompound : e.isCompound with
  | true =>
    rw [operandPhrase_of_compound hcompound]
    exact Phrase.fits_of_primary rfl _
  | false =>
    rw [operandPhrase_of_simple hcompound]
    cases e with
    | signed sign e => exact Nat.le_refl _
    | number n => cases n <;> exact Phrase.fits_of_primary rfl _
    | var | entry | call => exact Phrase.fits_of_primary rfl _
    | _ => cases hcompound

theorem fits_inlinePhrase {e : Expr} (h : e.isCondition = false) : e.inlinePhrase.Fits .sum := by
  cases e with
  | arith op l r =>
    have hop : ∀ op : Arith, Precedence.rank .sum ≤ op.precedence.rank := by
      rintro (_ | _ | _ | _) <;> decide
    exact hop op
  | signed sign e => exact (by decide : Precedence.rank .sum ≤ Precedence.rank .sign)
  | number n => cases n <;> exact Phrase.fits_of_primary rfl _
  | var | entry | call => exact Phrase.fits_of_primary rfl _
  | _ => cases h

theorem asOperandPhrase_writes {e : Expr} (h : e.inlinePhrase.Writes e) : e.operandPhrase.Writes e := by
  unfold operandPhrase asOperandPhrase
  split
  · exact h.parens
  · exact h

/-- An expression that is written as its line is. -/
theorem inlinePhrase_writes (e : Expr) : e.Printable → e.SumsInBrackets → e.inlinePhrase.Writes e := by
  induction e using Expr.induction with
  | step e ih =>
    intro he hsums
    -- operands fit every place of operators, for signs are as tight as these ask
    have hfits : ∀ (f : Expr) (p : Precedence), p.rank ≤ Precedence.rank .sign →
        f.operandPhrase.Fits p := fun f p hp => f.fits_operandPhrase.of_rank_le hp
    have hoperand : ∀ f, .expression f ∈ e.pieces → f.Printable → f.SumsInBrackets →
        f.operandPhrase.Writes f := fun f hf hp hs => asOperandPhrase_writes (ih f hf hp hs)
    cases e with
    | arith op l r =>
      exact (hoperand l (by simp [pieces]) he.1 hsums.1).arith (hoperand r (by simp [pieces]) he.2 hsums.2)
        (hfits l _ (by cases op <;> decide)) (hfits r _ (by cases op <;> decide))
    | signed sign f => exact (hoperand f (.head _) he hsums).signed f.fits_operandPhrase
    | number n =>
      cases n with
      | float => exact he.elim
      | int i =>
        exact ⟨rfl, Decimal.readInt_intText he.1 he.2,
          List.forall_mem_singleton.mpr (Terminal.isSpelled_int he.1 he.2)⟩
    | var x => exact ⟨rfl, trivial, List.forall_mem_singleton.mpr (Terminal.isSpelled_ident he)⟩
    | entry a i => exact (ih i (.head _) he.2 hsums.2).entry he.1 (fits_inlinePhrase hsums.1)
    | call f es =>
      have hes := allPrintable_iff.mp he.2
      have hall := allSums_iff.mp hsums
      rw [inlinePhrase, inlinePhrases_eq_map]
      exact .call he.1 fun e hmem =>
        ⟨ih e (List.mem_map_of_mem hmem) (hes e hmem) (hall e hmem).2,
          fits_inlinePhrase (hall e hmem).1⟩
    | compare op l r =>
      exact (hoperand l (by simp [pieces]) he.1 hsums.1).compare
        (hoperand r (by simp [pieces]) he.2 hsums.2) (hfits l _ (by decide)) (hfits r _ (by decide))
    | logical op l r =>
      exact (hoperand l (by simp [pieces]) he.1 hsums.1).logical
        (hoperand r (by simp [pieces]) he.2 hsums.2) (hfits l _ (by cases op <;> decide))
        (hfits r _ (by cases op <;> decide)) (hfits l _ (by decide)).endsInNot_eq_false
    | not f => exact (hoperand f (.head _) he hsums).not

end Expr

/-! ### Scanning texts with few gaps -/

theorem Spelled.space {cs : List Char} {tokens : List (Token.Kind × String)}
    (h : Spelled cs tokens) : Spelled (' ' :: cs) tokens := by
  have hspace : ∀ {gap rest : List Char}, Token.IsGap gap rest → Token.IsGap (' ' :: gap) rest :=
    fun hgap => .cons (.blank (by decide)) hgap
  cases h with
  | nil hgap => exact .nil (hspace hgap)
  | cons hgap hspelling hends hrest => exact .cons (hspace hgap) hspelling hends hrest

theorem Spelled.kind_ne_eof {cs : List Char} {tokens : List (Token.Kind × String)}
    (h : Spelled cs tokens) : ∀ t ∈ tokens, t.1 ≠ .eof := by
  induction h with
  | nil => exact nofun
  | cons _ hspelling _ _ ih => exact List.forall_mem_cons.mpr ⟨hspelling.kind_ne_eof, ih⟩

theorem Token.ends_space (k : Token.Kind) (rest : List Char) : Token.Ends k (' ' :: rest) := by
  have hspace : Token.Apart (' ' :: rest) := by
    rintro c ⟨⟩
    decide
  exact hspace.ends k

namespace Terminal

/-- The text is scanned as these terminals. -/
def Spells (cs : List Char) (xs : List Terminal) : Prop :=
  Spelled cs (xs.map fun x => (x.kind, x.content))

variable {cs rest : List Char} {xs : List Terminal}

theorem Spells.space (h : Spells cs xs) : Spells (' ' :: cs) xs :=
  Spelled.space h

theorem Spells.cons {x : Terminal} (hx : x.IsSpelled) (hends : Token.Ends x.kind rest)
    (h : Spells rest xs) : Spells (x.lexeme ++ rest) (x :: xs) :=
  Spelled.cons .nil hx hends h

theorem Spells.ident {x : String} (hx : IsName x) (hends : rest.head?.any Token.isWordChar = false)
    (h : Spells rest xs) : Spells (x.toList ++ rest) (ident x :: xs) :=
  Spells.cons (isSpelled_ident hx) hends h

theorem Spells.word {k : Token.Kind} (hk : k ∈ Token.Kind.reserved ∨ k ∈ Token.Kind.symbols)
    (hcs : (Terminal.word k).lexeme = cs) (hends : Token.Ends k rest) (h : Spells rest xs) :
    Spells (cs ++ rest) (Terminal.word k :: xs) :=
  hcs ▸ Spells.cons (isSpelled_word hk) hends h

theorem Spells.wordSpace {k : Token.Kind} (hk : k ∈ Token.Kind.reserved ∨ k ∈ Token.Kind.symbols)
    (hcs : (Terminal.word k).lexeme = cs) (h : Spells rest xs) :
    Spells (cs ++ ' ' :: rest) (Terminal.word k :: xs) :=
  Spells.word hk hcs (Token.ends_space ..) h.space

/-- The symbol is the character, and no character goes on with it. -/
structure IsMark (k : Token.Kind) (c : Char) : Prop where
  mem : k ∈ Token.Kind.symbols
  lexeme : (word k).lexeme = [c]
  continuedBy : ∀ d, k.continuedBy d = false

theorem IsMark.ends {k : Token.Kind} {c : Char} (hk : IsMark k c) (rest : List Char) :
    Token.Ends k rest := by
  cases rest with
  | nil => rfl
  | cons d rest => exact hk.continuedBy d

theorem Spells.mark {k : Token.Kind} {c : Char} (hk : IsMark k c) (h : Spells rest xs) :
    Spells (c :: rest) (Terminal.word k :: xs) :=
  Spells.word (.inr hk.mem) hk.lexeme (hk.ends rest) h

theorem isMark_lParen : IsMark .lParen '(' := ⟨by decide, by decide, fun _ => rfl⟩
theorem isMark_rParen : IsMark .rParen ')' := ⟨by decide, by decide, fun _ => rfl⟩
theorem isMark_lBracket : IsMark .lBracket '[' := ⟨by decide, by decide, fun _ => rfl⟩
theorem isMark_rBracket : IsMark .rBracket ']' := ⟨by decide, by decide, fun _ => rfl⟩
theorem isMark_comma : IsMark .comma ',' := ⟨by decide, by decide, fun _ => rfl⟩

end Terminal

/-- What stands between two operands is a word or a symbol. -/
def Infix.kind : Infix → Token.Kind
  | arith op => op.kind
  | compare op => op.kind
  | logical op => op.kind

theorem Infix.lexeme_kind (op : Infix) :
    (op.kind ∈ Token.Kind.reserved ∨ op.kind ∈ Token.Kind.symbols) ∧
      (Terminal.word op.kind).lexeme = op.symbol.toList := by
  rcases op with op | op | op <;> cases op <;> decide

theorem Infix.yield_join (l r : Expr) (op : Infix) : (op.join l r).inlinePhrase.yield =
    l.operandPhrase.yield ++ .word op.kind :: r.operandPhrase.yield := by
  cases op <;> rfl

open Terminal

namespace Expr

/-- Before all that ends operands, the characters are scanned as these terminals. -/
def Scans (cs : List Char) (xs : List Terminal) : Prop :=
  ∀ rest ys, EndsOperand rest → Spells rest ys → Spells (cs ++ rest) (xs ++ ys)

theorem scans_nil : Scans [] [] :=
  fun _ _ _ h => h

variable {cs : List Char} {xs : List Terminal} {e l r : Expr}

theorem endsOperand_cons {c : Char} (hc : c ∈ [')', ']', ',']) (rest : List Char) :
    EndsOperand (c :: rest) :=
  (endsInline_cons hc rest).endsOperand

/-- Marks around what is scanned, the second of which ends operands. -/
theorem Scans.enclosed {opening closing : Token.Kind} {c d : Char} (h : Scans cs xs)
    (hopening : IsMark opening c) (hclosing : IsMark closing d) (hd : d ∈ [')', ']', ',']) :
    Scans (c :: (cs ++ [d])) (.word opening :: (xs ++ [.word closing])) := by
  intro rest ys _ hspells
  have hinner := h _ _ (endsOperand_cons hd rest) (hspells.mark hclosing)
  simpa using hinner.mark hopening

theorem scans_operand (h : Scans e.inlineChars e.inlinePhrase.yield) :
    Scans e.operandChars e.operandPhrase.yield := by
  cases hcompound : e.isCompound with
  | true =>
    rw [operandChars_of_compound hcompound, operandPhrase_of_compound hcompound]
    exact h.enclosed isMark_lParen isMark_rParen (by decide)
  | false => rwa [operandChars_of_simple hcompound, operandPhrase_of_simple hcompound]

theorem scans_join {op : Infix} (hl : Scans l.operandChars l.operandPhrase.yield)
    (hr : Scans r.operandChars r.operandPhrase.yield) :
    Scans (op.join l r).inlineChars (op.join l r).inlinePhrase.yield := by
  intro rest ys hrest hspells
  obtain ⟨hword, hlexeme⟩ := op.lexeme_kind
  have hsymbol := ((hr rest ys hrest hspells).wordSpace hword hlexeme).space
  rw [inlineChars_join, Infix.yield_join]
  simpa using hl _ _ (endsOperand_space _) hsymbol

theorem scans_not (h : Scans e.operandChars e.operandPhrase.yield) :
    Scans (Expr.not e).inlineChars (Expr.not e).inlinePhrase.yield := by
  intro rest ys hrest hspells
  have hyield : (Expr.not e).inlinePhrase.yield = .word .notWord :: e.operandPhrase.yield := rfl
  rw [inlineChars_not, hyield, List.append_assoc]
  exact (h rest ys hrest hspells).wordSpace (by decide) (by decide)

theorem ends_sign (he : e.Printable) (sign : Sign) (rest : List Char) :
    Token.Ends sign.kind (e.operandChars ++ rest) := by
  obtain ⟨c, cs, hcs, hc⟩ := exists_opening he
  have hne : c ≠ '=' := by
    rintro rfl
    cases hc
  have hno : sign.kind.continuedBy c = false := by cases sign <;> exact decide_eq_false hne
  rw [hcs]
  exact hno

theorem scans_signed {sign : Sign} (he : e.Printable)
    (h : Scans e.operandChars e.operandPhrase.yield) :
    Scans (Expr.signed sign e).operandChars (Expr.signed sign e).inlinePhrase.yield := by
  intro rest ys hrest hspells
  have hsign : (sign.kind ∈ Token.Kind.reserved ∨ sign.kind ∈ Token.Kind.symbols) ∧
      (Terminal.word sign.kind).lexeme = sign.symbol.toList := by
    cases sign <;> decide
  rw [operandChars_signed, List.append_assoc]
  exact Spells.word hsign.1 hsign.2 (ends_sign he sign rest) (h rest ys hrest hspells)

theorem scans_int {i : Int} (hi : 0 ≤ i) (hword : i < 2 ^ 63) :
    Scans (Expr.number (.int i)).operandChars (Expr.number (.int i)).inlinePhrase.yield := by
  intro rest ys hrest hspells
  have hends : Token.Ends .intLiteral rest := hrest.head_eq_false (by decide)
  rw [operandChars_int hi, ← Decimal.intText_of_nonneg hi]
  exact Spells.cons (isSpelled_int hi hword) hends hspells

/-- A name, and what follows it in an operand. -/
theorem scans_name {x : String} {tail : List Char} (he : e.Printable)
    (hname : e.nameTail = some (x, tail)) (hyield : e.inlinePhrase.yield = .ident x :: xs)
    (h : Scans tail xs) : Scans e.operandChars e.inlinePhrase.yield := by
  intro rest ys hrest hspells
  rw [operandChars_of_nameTail hname, hyield, List.append_assoc]
  exact Spells.ident (he.isName hname) (head_nameTail hname hrest) (h rest ys hrest hspells)

theorem endsOperand_furtherChars (es : List Expr) {rest : List Char} (h : EndsOperand rest) :
    EndsOperand (furtherChars es ++ rest) := by
  cases es with
  | nil => exact h
  | cons => exact endsOperand_cons (by decide) _

theorem scans_further : ∀ {es : List Expr}, (∀ e ∈ es, Scans e.inlineChars e.inlinePhrase.yield) →
    Scans (furtherChars es) (es.flatMap fun e => .word .comma :: e.inlinePhrase.yield)
  | [], _ => scans_nil
  | e :: es, h => by
    obtain ⟨he, hes⟩ := List.forall_mem_cons.mp h
    intro rest ys hrest hspells
    have hends := endsOperand_furtherChars es hrest
    have hfirst := (he _ _ hends (scans_further hes rest ys hrest hspells)).space
    simpa [furtherChars] using hfirst.mark isMark_comma

theorem scans_arguments {es : List Expr} (h : ∀ e ∈ es, Scans e.inlineChars e.inlinePhrase.yield) :
    Scans (argumentChars es) (joined .comma (es.map fun e => e.inlinePhrase.yield)) := by
  cases es with
  | nil => exact scans_nil
  | cons e es =>
    obtain ⟨he, hes⟩ := List.forall_mem_cons.mp h
    intro rest ys hrest hspells
    have hends := endsOperand_furtherChars es hrest
    have hfurther := he _ _ hends (scans_further hes rest ys hrest hspells)
    simpa [argumentChars, joined, List.flatMap_map] using hfurther

/-- **The line of an expression is scanned as the terminals of its phrase.** -/
theorem scans_inline (e : Expr) : e.Printable → Scans e.inlineChars e.inlinePhrase.yield := by
  induction e using Expr.induction with
  | step e ih =>
    intro he
    rcases e.inline_cases with ⟨l, op, r, rfl⟩ | ⟨f, rfl⟩ | hsimple
    · obtain ⟨hl, hr⟩ := op.printable_join.mp he
      obtain ⟨hleft, hright⟩ := op.mem_pieces_join (l := l) (r := r)
      exact scans_join (scans_operand (ih l hleft hl)) (scans_operand (ih r hright hr))
    · exact scans_not (scans_operand (ih f (.head _) he))
    · rw [← operandChars_of_simple hsimple]
      cases e with
      | signed sign f => exact scans_signed he (scans_operand (ih f (.head _) he))
      | number n =>
        cases n with
        | float => exact he.elim
        | int i => exact scans_int he.1 he.2
      | var x => exact scans_name he rfl rfl scans_nil
      | entry a i =>
        have hindex := ih i (.head _) he.2
        exact scans_name he rfl rfl (hindex.enclosed isMark_lBracket isMark_rBracket (by decide))
      | call f es =>
        have hes := scans_arguments fun e hmem =>
          ih e (List.mem_map_of_mem hmem) (allPrintable_iff.mp he.2 e hmem)
        refine scans_name he rfl ?_ (hes.enclosed isMark_lParen isMark_rParen (by decide))
        simp [inlinePhrase, Phrase.yield, Function.comp_def]
      | _ => cases hsimple

end Expr

/-! ### Programs -/

open Grammar in
/-- A text that is scanned as the terminals of a program phrase is read as its
program. -/
theorem parseSource_of_spells {source : String} {d : ProgramPhrase} (hd : d.Grammatical)
    (hn : d.Within nestingLimit) (h : Spells source.toList d.yield) :
    parseSource source = .ok d.tree := by
  obtain ⟨ts, p, hitems, htexts⟩ := Spelled.items_eq h ⟨.start, source.toList⟩ rfl
  have hterminals : terminals ts = d.yield := terminals_eq htexts
  have hkinds : ∀ t ∈ ts, t.kind ≠ .eof := fun t ht =>
    Spelled.kind_ne_eof h (t.kind, t.text) (htexts ▸ List.mem_map_of_mem ht)
  have hscan : (Scanner.ofSource source).items = ts.map .ok ++ [.ok (Token.endOfInput p)] := hitems
  rw [parseSource, hscan]
  exact parse_tokens hd hn hterminals hkinds rfl

/-- A program with nothing but an `if` with this condition. -/
def Phrase.tested (d : Phrase) : ProgramPhrase :=
  ⟨[⟨"f", [], [], false, [.ifThen d .skip]⟩]⟩

/-- The text of the program is scanned as its terminals. -/
theorem Expr.spells_tested {e : Expr} (he : e.Printable) :
    Spells ("fun f() begin if " ++ e.inlineText ++ " then skip end").toList
      e.inlinePhrase.tested.yield := by
  have hnil : Spells [] [] := Spelled.nil .nil
  have hend := hnil.word (k := .endWord) (by decide) rfl (by rfl)
  have hskip := hend.wordSpace (k := .skipWord) (by decide) rfl
  have hthen := (hskip.wordSpace (k := .thenWord) (by decide) rfl).space
  have hcondition := scans_inline e he _ _ (endsOperand_space _) hthen
  have hif := hcondition.wordSpace (k := .ifWord) (by decide) rfl
  have hbegin := (hif.wordSpace (k := .beginWord) (by decide) rfl).space
  have hname := Spells.ident (x := "f") (by decide) rfl
    ((hbegin.mark isMark_rParen).mark isMark_lParen)
  have hfun := hname.wordSpace (k := .funWord) (by decide) rfl
  have hyield : e.inlinePhrase.tested.yield =
      [word .funWord, ident "f", word .lParen, word .rParen, word .beginWord, word .ifWord] ++
        (e.inlinePhrase.yield ++ [word .thenWord, word .skipWord, word .endWord]) := by
    simp [Phrase.tested, ProgramPhrase.yield, FunctionPhrase.yield, FunctionPhrase.declarationsYield,
      Clause.yield, joined]
  rw [hyield]
  simpa [inlineChars, lexeme, content, Token.Kind.spelling, Token.Kind.isOpen] using hfun

open Grammar in
/-- **An expression is read back from its line**, as the condition of an `if`, if all
in brackets are sums and the line is not nested too deep: a level is left to the `if`. -/
theorem parseSource_inlineText (e : Expr) (he : e.Printable) (hsums : e.SumsInBrackets)
    (hn : e.inlinePhrase.levels < nestingLimit) :
    parseSource ("fun f() begin if " ++ e.inlineText ++ " then skip end") =
      .ok ⟨[⟨"f", [], [], [.ifThen e .skip]⟩]⟩ := by
  have hwrites := e.inlinePhrase_writes he hsums
  have hlevels : (Clause.ifThen e.inlinePhrase .skip).levels ≤ nestingLimit := by
    simp only [Clause.levels, nestingLimit] at hn ⊢
    omega
  have hgrammatical : e.inlinePhrase.tested.Grammatical :=
    ProgramPhrase.grammatical_single ⟨hwrites.grammatical, trivial⟩
  have hwithin : e.inlinePhrase.tested.Within nestingLimit := ProgramPhrase.within_single hlevels
  have hread := parseSource_of_spells hgrammatical hwithin (Expr.spells_tested he)
  have htree : e.inlinePhrase.tested.tree =
    ⟨[⟨"f", [], [], [.ifThen e.inlinePhrase.tree .skip]⟩]⟩ := rfl
  rw [hread, htree, hwrites.tree]

/-- A `not` in front of a connective, two signs in a row, and a call in an index. -/
def Expr.twoSigns : Expr :=
  .logical .or (.not (.var "notes"))
    (.compare .le (.signed .minus (.signed .minus (.var "x")))
      (.entry "a" (.arith .add (.call "f" [.number (.int 1), .var "y"]) (.number (.int 2)))))

/-- The line of such a condition, and what is read from it. -/
theorem parseSource_twoSigns :
    Expr.twoSigns.inlineText = "(not notes) or (--x <= a[f(1, y) + 2])" ∧
      parseSource ("fun f() begin if " ++ Expr.twoSigns.inlineText ++ " then skip end") =
        .ok ⟨[⟨"f", [], [], [.ifThen Expr.twoSigns .skip]⟩]⟩ := by
  have hname : IsName "notes" ∧ IsName "x" ∧ IsName "a" ∧ IsName "f" ∧ IsName "y" := by decide
  have hprintable : Expr.twoSigns.Printable :=
    ⟨hname.1, hname.2.1, hname.2.2.1,
      ⟨hname.2.2.2.1, ⟨by decide, by decide⟩, hname.2.2.2.2, trivial⟩, by decide, by decide⟩
  have hsums : Expr.twoSigns.SumsInBrackets :=
    ⟨trivial, trivial, rfl, ⟨⟨rfl, trivial⟩, ⟨rfl, trivial⟩, trivial⟩, trivial⟩
  exact ⟨by decide +kernel, parseSource_inlineText Expr.twoSigns hprintable hsums (by decide)⟩

end SyntaxGraph
