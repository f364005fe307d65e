/-
# The grammar with more levels mirrors the grammar with fewer

The limit of nesting takes nothing away but programs that nest too deep: where
the grammar with fewer levels reads something, or fails for another reason than
the limit, the grammar with more levels does the same. With the same levels on
both sides the limit is mirrored too.

Key definitions: `Grammar.Below`.
Key theorems: `Grammar.below_level`, `Grammar.statement_mirrors`,
`Grammar.program_mirrors`.
-/
import SyntaxGraph.Proofs.Grammar.Mirror
import SyntaxGraph.Proofs.Grammar.ProgramVerdict

namespace SyntaxGraph
namespace Grammar

open TokenStream

variable (exempt : Expectation → Prop)

/-- The parts one level further down are mirrored. -/
structure Level.Mirrors (next next' : Level) : Prop where
  condition : Grammar.Mirrors exempt next.condition next'.condition
  expression : Grammar.Mirrors exempt next.expression next'.expression
  signed : Grammar.Mirrors exempt next.signed next'.signed
  forward : Forward next'.expression

/-- There is a level further down on the right side if there is one on the left
side. Where there is none on the left side, there is none on the right side, or
the limit is exempt. -/
structure Below (limit : Nat) (deeper : Option Level) (limit' : Nat) (deeper' : Option Level) :
    Prop where
  none : deeper = none → exempt (.nesting limit) ∨ limit' = limit ∧ deeper' = none
  some : ∀ next, deeper = some next → ∃ next', deeper' = some next' ∧ next.Mirrors exempt next'
  sound : ∃ n, SoundBelow n deeper'

variable {exempt} {limit limit' : Nat} {deeper deeper' : Option Level}

theorem nested_mirrors {α : Type} {part part' : Level → Parser α}
    (h : Below exempt limit deeper limit' deeper')
    (hpart : ∀ next next', next.Mirrors exempt next' → Mirrors exempt (part next) (part' next')) :
    Mirrors exempt (nested limit deeper part) (nested limit' deeper' part') := by
  cases hd : deeper with
  | none =>
    rcases h.none hd with hx | ⟨rfl, rfl⟩
    · exact mirrors_exempt rfl hx
    · exact mirrors_unexpected rfl
  | some next =>
    obtain ⟨next', rfl, hnext⟩ := h.some next hd
    exact hpart next next' hnext

/-! ### Expressions -/

theorem arguments_mirrors {next next' : Level} (h : next.Mirrors exempt next') :
    Mirrors exempt (arguments next) (arguments next') := by
  refine mirrors_peek_bind fun b => ?_
  cases b with
  | true => exact mirrors_pure _
  | false => exact h.expression.separated h.forward

theorem named_mirrors {next next' : Level} (h : next.Mirrors exempt next') (name : String) :
    Mirrors exempt (named next name) (named next' name) := by
  refine mirrors_accept_bind ?_ (mirrors_accept_bind ?_ (mirrors_pure _))
  · exact (arguments_mirrors h).bind fun es => mirrors_expect_bind (mirrors_pure _)
  · exact h.expression.bind fun i => mirrors_expect_bind (mirrors_pure _)

/-- Whether a literal reads as a number depends on what it shows as. -/
theorem integer_uniform {t : Token} (ht : t.kind = .intLiteral) :
    (∃ a, ∀ u : Token, u.terminal = t.terminal → integer u = pure a) ∨
      ¬ t.Readable ∧ ∀ u : Token, u.terminal = t.terminal → integer u = failAt u .integer := by
  have htext : ∀ u : Token, u.terminal = t.terminal → u.text = t.text := fun u hu =>
    (Token.text_eq_of_terminal_eq hu.symm (by simp [ht, Token.Kind.isOpen])).symm
  cases hi : Decimal.readInt t.text.toList with
  | some i => exact .inl ⟨.number (.int i), fun u hu => by rw [integer, htext u hu, hi]⟩
  | none =>
    refine .inr ⟨fun hread => ?_, fun u hu => by rw [integer, htext u hu, hi]⟩
    simpa [hi] using hread.1 ht

theorem float_uniform {t : Token} (ht : t.kind = .floatLiteral) :
    (∃ a, ∀ u : Token, u.terminal = t.terminal → float u = pure a) ∨
      ¬ t.Readable ∧ ∀ u : Token, u.terminal = t.terminal → float u = failAt u .float := by
  have htext : ∀ u : Token, u.terminal = t.terminal → u.text = t.text := fun u hu =>
    (Token.text_eq_of_terminal_eq hu.symm (by simp [ht, Token.Kind.isOpen])).symm
  cases hx : Decimal.readFloat t.text.toList with
  | some x => exact .inl ⟨.number (.float x), fun u hu => by rw [float, htext u hu, hx]⟩
  | none =>
    refine .inr ⟨fun hread => ?_, fun u hu => by rw [float, htext u hu, hx]⟩
    simpa [hx] using hread.2 ht

theorem primaryWithin_mirrors {next next' : Level} (h : next.Mirrors exempt next') :
    Mirrors exempt (primaryWithin next) (primaryWithin next') := by
  refine mirrors_literal_bind (x := .integer) rfl (fun _ => rfl) (fun _ => rfl)
    (fun _ => integer_uniform) ?_
  refine mirrors_literal_bind (x := .float) rfl (fun _ => rfl) (fun _ => rfl)
    (fun _ => float_uniform) ?_
  refine mirrors_accept?_bind (fun t u ht hu => ?_) (fun t _ => named_mirrors h t.text) ?_
  · simp only [Token.text_eq_of_terminal_eq hu.symm (by simp [ht, Token.Kind.isOpen])]
  refine mirrors_accept_bind ?_ (mirrors_unexpected rfl)
  exact h.condition.bind fun e => mirrors_expect_bind (mirrors_pure _)

theorem primary_mirrors (h : Below exempt limit deeper limit' deeper') :
    Mirrors exempt (primary limit deeper) (primary limit' deeper') :=
  nested_mirrors h fun _ _ => primaryWithin_mirrors

theorem signed_mirrors (h : Below exempt limit deeper limit' deeper') :
    Mirrors exempt (signed limit deeper) (signed limit' deeper') := by
  refine mirrors_choose_bind (fun k sign _ => ?_) (primary_mirrors h)
  exact (nested_mirrors h fun _ _ hnext => hnext.signed).bind fun e => mirrors_pure _

theorem product_mirrors (h : Below exempt limit deeper limit' deeper') :
    Mirrors exempt (product limit deeper) (product limit' deeper') := by
  obtain ⟨n, hsound⟩ := h.sound
  exact (signed_mirrors h).chained (signed_meets hsound).forward

theorem expression_mirrors (h : Below exempt limit deeper limit' deeper') :
    Mirrors exempt (expression limit deeper) (expression limit' deeper') := by
  obtain ⟨n, hsound⟩ := h.sound
  exact (product_mirrors h).chained (product_meets hsound).forward

theorem comparison_mirrors (h : Below exempt limit deeper limit' deeper') :
    Mirrors exempt (comparison limit deeper) (comparison limit' deeper') := by
  refine (expression_mirrors h).bind fun l => mirrors_choose_bind (fun k op _ => ?_) (mirrors_pure _)
  refine (expression_mirrors h).bind fun r => mirrors_peek_bind fun b => ?_
  cases b with
  | true => exact mirrors_unexpected rfl
  | false => exact mirrors_pure _

theorem negation_mirrors (h : Below exempt limit deeper limit' deeper') :
    Mirrors exempt (negation limit deeper) (negation limit' deeper') := by
  refine mirrors_accept_bind ?_ (comparison_mirrors h)
  exact (nested_mirrors h fun _ _ hnext => hnext.condition).bind fun e => mirrors_pure _

theorem conjunction_mirrors (h : Below exempt limit deeper limit' deeper') :
    Mirrors exempt (conjunction limit deeper) (conjunction limit' deeper') := by
  obtain ⟨n, hsound⟩ := h.sound
  simp only [conjunction, connective_eq]
  exact (negation_mirrors h).chained (negation_meets hsound).forward

theorem condition_mirrors (h : Below exempt limit deeper limit' deeper') :
    Mirrors exempt (condition limit deeper) (condition limit' deeper') := by
  obtain ⟨n, hsound⟩ := h.sound
  simp only [condition, connective_eq]
  exact (conjunction_mirrors h).chained (conjunction_meets hsound).forward

/-- With at least as many levels left, the grammar of expressions mirrors the
other one, when the limit is exempt or the levels are the same. -/
theorem below_level : ∀ {n m : Nat}, n ≤ m → (exempt (.nesting limit) ∨ limit' = limit ∧ m = n) →
    Below exempt limit (level limit n) limit' (level limit' m)
  | 0, m, _, h => by
    refine ⟨fun _ => h.imp_right fun ⟨hl, hm⟩ => ⟨hl, by rw [hm]; rfl⟩, nofun, m, sound_level limit' m⟩
  | n + 1, 0, hnm, _ => absurd hnm (Nat.not_succ_le_zero n)
  | n + 1, m + 1, hnm, h => by
    have hbelow : Below exempt limit (level limit n) limit' (level limit' m) :=
      below_level (Nat.le_of_succ_le_succ hnm) (h.imp_right fun ⟨hl, hm⟩ => ⟨hl, Nat.succ.inj hm⟩)
    refine ⟨nofun, ?_, m + 1, sound_level limit' (m + 1)⟩
    rintro next ⟨⟩
    exact ⟨_, rfl, condition_mirrors hbelow, expression_mirrors hbelow, signed_mirrors hbelow,
      (expression_meets (sound_level limit' m)).forward⟩

/-! ### Statements -/

theorem location_mirrors (h : Below exempt limit deeper limit' deeper') :
    Mirrors exempt (location limit deeper) (location limit' deeper') := by
  refine mirrors_expectToken_bind (fun t u ht hu => ?_) fun t _ => ?_
  · simp only [Token.text_eq_of_terminal_eq hu.symm (by simp [ht, Token.Kind.isOpen])]
  refine mirrors_accept_bind ?_ (mirrors_pure _)
  exact (expression_mirrors h).bind fun i => mirrors_expect_bind (mirrors_pure _)

theorem printStatement_mirrors : Mirrors exempt printStatement printStatement := by
  refine mirrors_expect_bind (mirrors_expectToken_bind (fun t u ht hu => ?_) fun t _ => ?_)
  · simp only [Token.text_eq_of_terminal_eq hu.symm (by simp [ht, Token.Kind.isOpen])]
  exact mirrors_expect_bind (mirrors_pure _)

theorem assignment_mirrors (h : Below exempt limit deeper limit' deeper') :
    Mirrors exempt (assignment limit deeper) (assignment limit' deeper') := by
  refine (location_mirrors h).bind fun l => mirrors_choose_bind (fun k update _ => ?_)
    (mirrors_unexpected rfl)
  cases update with
  | none => exact (expression_mirrors h).bind fun e => mirrors_pure _
  | some op => exact (expression_mirrors h).bind fun e => mirrors_pure _

theorem statementWithin_mirrors {inner inner' : Parser Stmt}
    (h : Below exempt limit deeper limit' deeper') (hinner : Mirrors exempt inner inner')
    (hforward : Forward inner') :
    Mirrors exempt (statementWithin limit deeper inner) (statementWithin limit' deeper' inner') := by
  refine mirrors_accept_bind printStatement_mirrors ?_
  refine mirrors_accept_bind ?ifWord (mirrors_accept_bind ?whileWord ?_)
  case ifWord =>
    refine (condition_mirrors h).bind fun c => mirrors_expect_bind (hinner.bind fun yes => ?_)
    exact mirrors_accept_bind (hinner.bind fun no => mirrors_pure _) (mirrors_pure _)
  case whileWord =>
    exact (condition_mirrors h).bind fun c => mirrors_expect_bind (hinner.bind fun s => mirrors_pure _)
  refine mirrors_accept_bind ?readWord (mirrors_accept_bind ?writeWord ?_)
  case readWord =>
    exact mirrors_expect_bind ((location_mirrors h).bind fun l => mirrors_expect_bind (mirrors_pure _))
  case writeWord =>
    exact mirrors_expect_bind ((expression_mirrors h).bind fun e => mirrors_expect_bind (mirrors_pure _))
  refine mirrors_accept_bind ((expression_mirrors h).bind fun e => mirrors_pure _) ?_
  refine mirrors_accept_bind (mirrors_pure _) (mirrors_accept_bind (mirrors_pure _) ?_)
  refine mirrors_accept_bind ?block (mirrors_peek_bind fun b => ?_)
  case block =>
    refine (hinner.separated hforward).bind fun ss => ?_
    exact mirrors_accept_bind (mirrors_pure _) (mirrors_unexpected rfl)
  cases b with
  | true => exact assignment_mirrors h
  | false => exact mirrors_unexpected rfl

theorem statement_mirrors : ∀ {n m : Nat}, n ≤ m → (exempt (.nesting limit) ∨ limit' = limit ∧ m = n) →
    Mirrors exempt (statement limit n) (statement limit' m)
  | 0, m, _, h => by
    rcases h with hx | ⟨rfl, rfl⟩
    · exact mirrors_exempt rfl hx
    · exact mirrors_unexpected rfl
  | n + 1, 0, hnm, _ => absurd hnm (Nat.not_succ_le_zero n)
  | n + 1, m + 1, hnm, h => by
    have h' : exempt (.nesting limit) ∨ limit' = limit ∧ m = n :=
      h.imp_right fun ⟨hl, hm⟩ => ⟨hl, Nat.succ.inj hm⟩
    have hnm' := Nat.le_of_succ_le_succ hnm
    exact statementWithin_mirrors (below_level hnm' h') (statement_mirrors hnm' h')
      (statement_meets limit' m).forward

/-! ### Programs -/

section

variable (hlimit : limit ≤ limit') (h : exempt (.nesting limit) ∨ limit' = limit)

include hlimit h

theorem typeName_mirrors : Mirrors exempt (typeName limit) (typeName limit') := by
  have hbelow : Below exempt limit (level limit limit) limit' (level limit' limit') :=
    below_level hlimit (h.imp_right fun hl => ⟨hl, hl⟩)
  refine mirrors_choose_bind (fun k base _ => ?_) (mirrors_unexpected rfl)
  refine mirrors_accept_bind ?_ (mirrors_pure _)
  exact (expression_mirrors hbelow).bind fun e => mirrors_expect_bind (mirrors_pure _)

theorem declaration_mirrors (name colon : Place) :
    Mirrors exempt (declaration limit name colon) (declaration limit' name colon) := by
  refine mirrors_expectToken_bind (fun t u ht hu => ?_) fun t _ => ?_
  · simp only [Token.text_eq_of_terminal_eq hu.symm (by simp [ht, Token.Kind.isOpen])]
  exact mirrors_expect_bind ((typeName_mirrors hlimit h).bind fun type => mirrors_pure _)

theorem parameters_mirrors : Mirrors exempt (parameters limit) (parameters limit') := by
  refine mirrors_peek_bind fun b => ?_
  cases b with
  | true => exact mirrors_pure _
  | false => exact (declaration_mirrors hlimit h _ _).separated (declaration_meets limit' _ _).forward

theorem nextDeclaration_mirrors : Mirrors exempt (nextDeclaration limit) (nextDeclaration limit') := by
  refine mirrors_peek_bind fun b => ?_
  cases b with
  | true => exact (declaration_mirrors hlimit h _ _).bind fun d => mirrors_pure _
  | false => exact mirrors_pure _

theorem declarations_mirrors : Mirrors exempt (declarations limit) (declarations limit') := by
  refine (nextDeclaration_mirrors hlimit h).bind fun first => ?_
  cases first with
  | none => exact mirrors_pure _
  | some first =>
    refine Mirrors.bind (Mirrors.collect (repeatable_accept (nextDeclaration_meets limit).forward)
      (repeatable_accept (nextDeclaration_meets limit').forward) ?_) fun ds => mirrors_pure _
    exact mirrors_accept_bind (nextDeclaration_mirrors hlimit h) (mirrors_pure _)

theorem function_mirrors : Mirrors exempt (function limit) (function limit') := by
  have hstatement : Mirrors exempt (statement limit limit) (statement limit' limit') :=
    statement_mirrors hlimit (h.imp_right fun hl => ⟨hl, hl⟩)
  refine mirrors_expect_bind (mirrors_expectToken_bind (fun t u ht hu => ?_) fun t _ => ?_)
  · simp only [Token.text_eq_of_terminal_eq hu.symm (by simp [ht, Token.Kind.isOpen])]
  refine mirrors_expect_bind ((parameters_mirrors hlimit h).bind fun ps => mirrors_expect_bind ?_)
  refine (declarations_mirrors hlimit h).bind fun ds => mirrors_expect_bind ?_
  refine (hstatement.separated (statement_meets limit' limit').forward).bind fun body => ?_
  exact mirrors_accept_bind (mirrors_pure _) (mirrors_unexpected rfl)

/-- **The grammar of programs with a higher limit mirrors the one with a lower
limit**, when the limit is exempt or the same. -/
theorem program_mirrors : Mirrors exempt (program limit) (program limit') := by
  have hfunction := function_mirrors hlimit h
  refine mirrors_settle_bind (hfunction.bind fun first => ?_)
  refine Mirrors.bind (Mirrors.collect (repeatable_function limit) (repeatable_function limit') ?_)
    fun fs => mirrors_pure _
  refine mirrors_atEnd_bind fun b => ?_
  cases b with
  | true => exact mirrors_pure _
  | false => exact hfunction.bind fun f => mirrors_pure _

end

end Grammar
end SyntaxGraph
