/-
# How clauses are read

A clause that keeps the rules and opens no more levels than are left is read as
the statement it stands for and to its end, when nothing in front of the
stream behind it goes on with it.

Key definitions: `Grammar.ParsesClauses`, `Grammar.AfterClause`.
Key theorems: `Grammar.statementWithin_parses`, `Grammar.statement_parses`.
-/
import SyntaxGraph.Proofs.Grammar.ExprReading
import SyntaxGraph.Proofs.Grammar.StmtVerdict

namespace SyntaxGraph
namespace Grammar

open TokenStream

/-- The part reads the clauses with at most `n` levels. An `else` may not be
in front of an open `if`. -/
def ParsesClauses (inner : Parser Stmt) (n : Nat) : Prop :=
  ∀ (c : Clause) (ts : List Token) (s : TokenStream), c.Grammatical → c.levels ≤ n → Clear s →
    (c.endsInIf = true → s.next ≠ some .elseWord) → terminals ts = c.yield →
    inner (s.push ts) = .ok (c.tree, s)

/-- Any clause is over here. -/
def AfterClause (s : TokenStream) : Prop :=
  Clear s ∧ s.next ≠ some .elseWord

theorem afterClause_push {t : Token} {ts : List Token} {s : TokenStream}
    (h : t.kind = .semicolon ∨ t.kind = .endWord) : AfterClause (s.push (t :: ts)) := by
  refine ⟨clear_push ?_, ?_⟩ <;> obtain h | h := h <;> simp [h, Token.Kind.binds]

section

variable {limit n : Nat} {deeper : Option Level}

theorem expression_before (hsound : SoundBelow n deeper) (h : CompleteBelow n deeper) {e : Phrase}
    {ts us : List Token} {t : Token} {s : TokenStream} (ht : t.kind.binds = none)
    (he : e.Fits .sum ∧ e.Grammatical) (hn : e.levels ≤ n) (hts : terminals ts = e.yield) :
    expression limit deeper (s.push (ts ++ t :: us)) = .ok (e.tree, s.push (t :: us)) := by
  rw [← push_push]
  exact (expression_parses hsound h).of_clear (clear_push ht) he.1 he.2 hn hts

theorem condition_before (hsound : SoundBelow n deeper) (h : CompleteBelow n deeper) {e : Phrase}
    {ts us : List Token} {t : Token} {s : TokenStream} (ht : t.kind.binds = none)
    (he : e.Grammatical) (hn : e.levels ≤ n) (hts : terminals ts = e.yield) :
    condition limit deeper (s.push (ts ++ t :: us)) = .ok (e.tree, s.push (t :: us)) := by
  rw [← push_push]
  exact (condition_parses hsound h).of_clear (clear_push ht) e.fits_disjunction he hn hts

/-- A target is read when no bracket is behind it. -/
theorem location_parses (hsound : SoundBelow n deeper) (h : CompleteBelow n deeper) {l : Phrase}
    {ts us : List Token} {t : Token} {s : TokenStream} (ht : t.kind.binds = none)
    (hl : l.IsTarget) (hn : l.targetLevels ≤ n) (hts : terminals ts = l.yield) :
    location limit deeper (s.push (ts ++ t :: us)) = .ok (l.tree, s.push (t :: us)) := by
  cases l with
  | var x =>
    obtain ⟨v, rfl, hv⟩ := terminals_eq_singleton hts
    have htext : v.text = x := text_of_terminal hv rfl
    have hvk : v.kind = .ident := kind_of_terminal hv
    have hne : t.kind ≠ .lBracket := fun hk => by simp [hk, Token.Kind.binds] at ht
    rw [List.singleton_append, push_cons, location,
      bind_of_ok (expect_push hvk (settled_of_ne_nil (by simp))),
      bind_of_ok (accept_none (by simpa using hne)), htext]
    rfl
  | entry a i =>
    obtain ⟨v, _, rfl, hv, hrest⟩ := terminals_eq_cons hts
    obtain ⟨b, _, rfl, hb, hrest⟩ := terminals_eq_cons hrest
    obtain ⟨is, b', rfl, his, hb'⟩ := terminals_eq_concat_word hrest
    have htext : v.text = a := text_of_terminal hv rfl
    have hvk : v.kind = .ident := kind_of_terminal hv
    have hbk : b.kind = .lBracket := kind_of_terminal hb
    have hopen : b'.kind.binds = none := by simp [hb', Token.Kind.binds]
    have hindex : expression limit deeper (s.push (is ++ b' :: t :: us)) =
        .ok (i.tree, s.push (b' :: t :: us)) := expression_before hsound h hopen hl hn his
    rw [List.cons_append, push_cons, location,
      bind_of_ok (expect_push hvk (settled_of_ne_nil (by simp))), List.cons_append, push_cons,
      bind_of_ok (accept_push hbk (settled_of_ne_nil (by simp))), List.append_assoc]
    refine (bind_of_ok hindex).trans ?_
    rw [push_cons, bind_of_ok (expect_push hb' (settled_of_ne_nil (by simp))), htext]
    rfl
  | _ => exact hl.elim

/-! ### Statements by their words -/

theorem terminals_parenthesized {ts : List Token} {k : Token.Kind} {w : List Terminal}
    (h : terminals ts = Clause.parenthesized k w) :
    ∃ t o us c, ts = t :: o :: (us ++ [c]) ∧ t.kind = k ∧ o.kind = .lParen ∧ terminals us = w ∧
      c.kind = .rParen := by
  obtain ⟨t, _, rfl, ht, hrest⟩ := terminals_eq_cons h
  obtain ⟨o, _, rfl, ho, hrest⟩ := terminals_eq_cons hrest
  obtain ⟨us, c, rfl, hus, hc⟩ := terminals_eq_concat_word hrest
  exact ⟨t, o, us, c, rfl, kind_of_terminal ht, kind_of_terminal ho, hus, hc⟩

theorem printStatement_parses {o t c : Token} {s : TokenStream} (ho : o.kind = .lParen)
    (ht : t.kind = .stringLiteral) (hc : c.kind = .rParen) (hs : s.Settled) :
    printStatement (s.push [o, t, c]) = .ok (.print t.text, s) := by
  rw [push_cons, printStatement, bind_of_ok (expect_push ho (settled_of_ne_nil (by simp))), push_cons,
    bind_of_ok (expect_push ht (settled_of_ne_nil (by simp))), bind_of_ok (expect_push hc hs)]
  rfl

theorem readStatement_parses (hsound : SoundBelow n deeper) (h : CompleteBelow n deeper) {l : Phrase}
    {ts : List Token} {o c : Token} {s : TokenStream} (ho : o.kind = .lParen) (hc : c.kind = .rParen)
    (hl : l.IsTarget) (hn : l.targetLevels ≤ n) (hts : terminals ts = l.yield) (hs : s.Settled) :
    readStatement limit deeper (s.push (o :: (ts ++ [c]))) = .ok (.read l.tree, s) := by
  have hclose : c.kind.binds = none := by simp [hc, Token.Kind.binds]
  rw [push_cons, readStatement, bind_of_ok (expect_push ho (settled_of_ne_nil (by simp))),
    bind_of_ok (location_parses hsound h hclose hl hn hts), bind_of_ok (expect_push hc hs)]
  rfl

theorem writeStatement_parses (hsound : SoundBelow n deeper) (h : CompleteBelow n deeper) {e : Phrase}
    {ts : List Token} {o c : Token} {s : TokenStream} (ho : o.kind = .lParen) (hc : c.kind = .rParen)
    (he : e.Fits .sum ∧ e.Grammatical) (hn : e.levels ≤ n) (hts : terminals ts = e.yield)
    (hs : s.Settled) :
    writeStatement limit deeper (s.push (o :: (ts ++ [c]))) = .ok (.write e.tree, s) := by
  have hclose : c.kind.binds = none := by simp [hc, Token.Kind.binds]
  rw [push_cons, writeStatement, bind_of_ok (expect_push ho (settled_of_ne_nil (by simp))),
    bind_of_ok (expression_before hsound h hclose he hn hts), bind_of_ok (expect_push hc hs)]
  rfl

theorem assignment_parses (hsound : SoundBelow n deeper) (h : CompleteBelow n deeper)
    {update : Option Update} {l e : Phrase} {ts us : List Token} {t : Token} {s : TokenStream}
    (hs : Clear s) (ht : t.kind = Update.kindOf update) (hl : l.IsTarget) (hln : l.targetLevels ≤ n)
    (hts : terminals ts = l.yield) (he : e.Fits .sum ∧ e.Grammatical) (hen : e.levels ≤ n)
    (hus : terminals us = e.yield) :
    assignment limit deeper (s.push (ts ++ t :: us)) = .ok ((Clause.assign update l e).tree, s) := by
  have hsign : t.kind.binds = none := by
    rw [ht]
    rcases update with _ | _ | _ <;> rfl
  have hvalue : expression limit deeper (s.push us) = .ok (e.tree, s) :=
    (expression_parses hsound h).of_clear hs he.1 he.2 hen hus
  rw [assignment, bind_of_ok (location_parses hsound h hsign hl hln hts), push_cons,
    bind_of_ok (choose_push (assignmentOf_eq_some.mpr ht) (hs.settled.push us))]
  cases update with
  | none => exact bind_of_ok hvalue
  | some op => exact bind_of_ok hvalue

variable {inner : Parser Stmt}

theorem ifThen_parses (hsound : SoundBelow n deeper) (h : CompleteBelow n deeper)
    (hinner : ParsesClauses inner n) {c : Phrase} {yes : Clause} {cs ts : List Token} {t : Token}
    {s : TokenStream} (hs : Clear s) (helse : s.next ≠ some .elseWord) (ht : t.kind = .thenWord)
    (hc : c.Grammatical) (hcn : c.levels ≤ n) (hcs : terminals cs = c.yield)
    (hyes : yes.Grammatical) (hyesn : yes.levels ≤ n) (hts : terminals ts = yes.yield) :
    ifStatement limit deeper inner (s.push (cs ++ t :: ts)) = .ok (.ifThen c.tree yes.tree, s) := by
  have hthen : t.kind.binds = none := by simp [ht, Token.Kind.binds]
  rw [ifStatement, bind_of_ok (condition_before hsound h hthen hc hcn hcs), push_cons,
    bind_of_ok (expect_push ht (hs.settled.push ts)),
    bind_of_ok (hinner yes ts s hyes hyesn hs (fun _ => helse) hts), bind_of_ok (accept_none helse)]
  rfl

theorem ifThenElse_parses (hsound : SoundBelow n deeper) (h : CompleteBelow n deeper)
    (hinner : ParsesClauses inner n) {c : Phrase} {yes no : Clause} {cs ts us : List Token}
    {t t' : Token} {s : TokenStream} (hs : Clear s)
    (hno : no.endsInIf = true → s.next ≠ some .elseWord) (ht : t.kind = .thenWord)
    (ht' : t'.kind = .elseWord) (hc : c.Grammatical) (hcn : c.levels ≤ n)
    (hcs : terminals cs = c.yield) (hyes : yes.Grammatical) (hyesif : yes.endsInIf = false)
    (hyesn : yes.levels ≤ n) (hts : terminals ts = yes.yield) (hnog : no.Grammatical)
    (hnon : no.levels ≤ n) (hus : terminals us = no.yield) :
    ifStatement limit deeper inner (s.push (cs ++ t :: (ts ++ t' :: us))) =
      .ok (.ifThenElse c.tree yes.tree no.tree, s) := by
  have hthen : t.kind.binds = none := by simp [ht, Token.Kind.binds]
  have helse : Clear (s.push (t' :: us)) := clear_push (by simp [ht', Token.Kind.binds])
  have hyesrun := hinner yes ts (s.push (t' :: us)) hyes hyesn helse
    (fun hif => by simp [hyesif] at hif) hts
  rw [ifStatement, bind_of_ok (condition_before hsound h hthen hc hcn hcs), push_cons,
    bind_of_ok (expect_push ht (settled_of_ne_nil (by simp))), ← push_push, bind_of_ok hyesrun,
    push_cons,
    bind_of_ok (accept_push ht' (hs.settled.push us))]
  exact bind_of_ok (hinner no us s hnog hnon hs hno hus)

theorem whileStatement_parses (hsound : SoundBelow n deeper) (h : CompleteBelow n deeper)
    (hinner : ParsesClauses inner n) {c : Phrase} {body : Clause} {cs ts : List Token} {t : Token}
    {s : TokenStream} (hs : Clear s) (helse : body.endsInIf = true → s.next ≠ some .elseWord)
    (ht : t.kind = .doWord) (hc : c.Grammatical) (hcn : c.levels ≤ n) (hcs : terminals cs = c.yield)
    (hbody : body.Grammatical) (hbodyn : body.levels ≤ n) (hts : terminals ts = body.yield) :
    whileStatement limit deeper inner (s.push (cs ++ t :: ts)) = .ok (.whileDo c.tree body.tree, s) := by
  have hdo : t.kind.binds = none := by simp [ht, Token.Kind.binds]
  rw [whileStatement, bind_of_ok (condition_before hsound h hdo hc hcn hcs), push_cons,
    bind_of_ok (expect_push ht (hs.settled.push ts))]
  exact bind_of_ok (hinner body ts s hbody hbodyn hs helse hts)

/-- A row of statements is read up to the `end` behind it. -/
theorem statements_parses (hforward : Forward inner) (hinner : ParsesClauses inner n)
    {cs : List Clause} {ts : List Token} {t : Token} {s : TokenStream} (ht : t.kind = .endWord)
    (hne : cs ≠ []) (hcs : ∀ c ∈ cs, c.Grammatical ∧ c.levels ≤ n)
    (hts : terminals ts = joined .semicolon (cs.map Clause.yield)) :
    separated .semicolon inner (s.push (ts ++ [t])) = .ok (cs.map Clause.tree, s.push [t]) := by
  obtain ⟨c, cs, rfl⟩ := List.exists_cons_of_ne_nil hne
  have hend : AfterClause (s.push [t]) := afterClause_push (.inr ht)
  rw [← push_push]
  refine separated_parses AfterClause hforward (fun _ _ _ ht => afterClause_push (.inl ht))
    ?_ hend.1.settled hend (by simp [ht]) hts
  intro x hx us r _ hr hus
  exact hinner x us r (hcs x hx).1 (hcs x hx).2 hr.1 (fun _ => hr.2) hus

theorem blockStatement_parses (hforward : Forward inner) (hinner : ParsesClauses inner n)
    {cs : List Clause} {ts : List Token} {t : Token} {s : TokenStream} (hs : s.Settled)
    (ht : t.kind = .endWord) (hne : cs ≠ []) (hcs : ∀ c ∈ cs, c.Grammatical ∧ c.levels ≤ n)
    (hts : terminals ts = joined .semicolon (cs.map Clause.yield)) :
    blockStatement inner (s.push (ts ++ [t])) = .ok (.block (cs.map Clause.tree), s) := by
  rw [blockStatement, bind_of_ok (statements_parses hforward hinner ht hne hcs hts),
    bind_of_ok (accept_push ht hs)]
  rfl

/-- A clause is read by the form that its first token calls for. -/
theorem statementWithin_parses (hsound : SoundBelow n deeper) (h : CompleteBelow n deeper)
    (hforward : Forward inner) (hinner : ParsesClauses inner n) :
    ParsesClauses (statementWithin limit deeper inner) (n + 1) := by
  intro c ts s hg hn hs helse hts
  rw [statementWithin]
  cases c with
  | print text =>
    obtain ⟨k, o, _, c, rfl, hk, ho, hus, hc⟩ := terminals_parenthesized hts
    obtain ⟨t, rfl, ht⟩ := terminals_eq_singleton hus
    have htext : t.text = text := text_of_terminal ht rfl
    rw [push_cons, accept_then hk (hs.settled.push _)]
    exact (printStatement_parses ho (kind_of_terminal ht) hc hs.settled).trans
      (by rw [htext, Clause.tree])
  | ifThen c yes =>
    obtain ⟨k, _, rfl, hk, hrest⟩ := terminals_eq_cons hts
    obtain ⟨cs, t, us, rfl, hcs, ht, hus⟩ := terminals_eq_append_word hrest
    obtain ⟨hcn, hyesn⟩ := Nat.max_le.mp (Nat.le_of_succ_le_succ hn)
    have hk : k.kind = .ifWord := kind_of_terminal hk
    refine (accept_else (by simp [hk])).trans ?_
    refine (accept_then hk (hs.settled.push _)).trans ?_
    exact ifThen_parses hsound h hinner hs (helse rfl) ht hg.1 hcn hcs hg.2 hyesn hus
  | ifThenElse c yes no =>
    obtain ⟨k, _, rfl, hk, hrest⟩ := terminals_eq_cons hts
    obtain ⟨cs, t, _, rfl, hcs, ht, hrest⟩ := terminals_eq_append_word hrest
    obtain ⟨us, t', vs, rfl, hus, ht', hvs⟩ := terminals_eq_append_word hrest
    obtain ⟨hcn, hboth⟩ := Nat.max_le.mp (Nat.le_of_succ_le_succ hn)
    obtain ⟨hyesn, hnon⟩ := Nat.max_le.mp hboth
    obtain ⟨hc, hyes, hyesif, hno⟩ := hg
    have hk : k.kind = .ifWord := kind_of_terminal hk
    refine (accept_else (by simp [hk])).trans ?_
    refine (accept_then hk (hs.settled.push _)).trans ?_
    exact ifThenElse_parses hsound h hinner hs helse ht ht' hc hcn hcs hyes hyesif hyesn hus hno hnon hvs
  | whileDo c body =>
    obtain ⟨k, _, rfl, hk, hrest⟩ := terminals_eq_cons hts
    obtain ⟨cs, t, us, rfl, hcs, ht, hus⟩ := terminals_eq_append_word hrest
    obtain ⟨hcn, hbodyn⟩ := Nat.max_le.mp (Nat.le_of_succ_le_succ hn)
    have hk : k.kind = .whileWord := kind_of_terminal hk
    iterate 2 refine (accept_else (by simp [hk])).trans ?_
    refine (accept_then hk (hs.settled.push _)).trans ?_
    exact whileStatement_parses hsound h hinner hs helse ht hg.1 hcn hcs hg.2 hbodyn hus
  | read l =>
    obtain ⟨k, o, us, c, rfl, hk, ho, hus, hc⟩ := terminals_parenthesized hts
    iterate 3 refine (accept_else (by simp [hk])).trans ?_
    rw [push_cons, accept_then hk (hs.settled.push _)]
    exact readStatement_parses hsound h ho hc hg (Nat.le_of_succ_le_succ hn) hus hs.settled
  | write e =>
    obtain ⟨k, o, us, c, rfl, hk, ho, hus, hc⟩ := terminals_parenthesized hts
    iterate 4 refine (accept_else (by simp [hk])).trans ?_
    rw [push_cons, accept_then hk (hs.settled.push _)]
    exact writeStatement_parses hsound h ho hc hg (Nat.le_of_succ_le_succ hn) hus hs.settled
  | ret e =>
    obtain ⟨k, us, rfl, hk, hus⟩ := terminals_eq_cons hts
    have hk : k.kind = .returnWord := kind_of_terminal hk
    iterate 5 refine (accept_else (by simp [hk])).trans ?_
    refine (accept_then hk (hs.settled.push _)).trans ?_
    exact bind_of_ok ((expression_parses hsound h).of_clear hs hg.1 hg.2 (Nat.le_of_succ_le_succ hn) hus)
  | leave =>
    obtain ⟨k, rfl, hk⟩ := terminals_eq_singleton hts
    have hk : k.kind = .breakWord := kind_of_terminal hk
    iterate 6 refine (accept_else (by simp [hk])).trans ?_
    exact accept_then hk hs.settled
  | skip =>
    obtain ⟨k, rfl, hk⟩ := terminals_eq_singleton hts
    have hk : k.kind = .skipWord := kind_of_terminal hk
    iterate 7 refine (accept_else (by simp [hk])).trans ?_
    exact accept_then hk hs.settled
  | block cs =>
    obtain ⟨k, _, rfl, hk, hrest⟩ := terminals_eq_cons hts
    obtain ⟨us, t, rfl, hus, ht⟩ := terminals_eq_concat_word hrest
    have hk : k.kind = .beginWord := kind_of_terminal hk
    obtain ⟨hne, hcs⟩ := hg
    simp only [Clause.allGrammatical_iff] at hcs
    simp only [Clause.levels, Nat.add_le_add_iff_right, Clause.levelsOfAll_le_iff] at hn
    rw [Clause.yields_eq_map] at hus
    rw [Clause.tree, Clause.trees_eq_map]
    iterate 8 refine (accept_else (by simp [hk])).trans ?_
    refine (accept_then hk (hs.settled.push _)).trans ?_
    exact blockStatement_parses hforward hinner hs.settled ht hne (fun c hc => ⟨hcs c hc, hn c hc⟩) hus
  | assign update l e =>
    obtain ⟨us, t, vs, rfl, hus, ht, hvs⟩ := terminals_eq_append_word hts
    obtain ⟨hln, hen⟩ := Nat.max_le.mp (Nat.le_of_succ_le_succ hn)
    obtain ⟨hl, he⟩ := hg
    have hident : (s.push (us ++ t :: vs)).next = some .ident := by
      cases l with
      | var | entry =>
        obtain ⟨v, _, rfl, hv, -⟩ := terminals_eq_cons hus
        exact congrArg some (kind_of_terminal hv)
      | _ => exact hl.elim
    iterate 9 refine (accept_else (by simp [hident])).trans ?_
    rw [bind_of_ok (peek_run _ _), hident]
    exact assignment_parses hsound h hs ht hl hln hus he hen hvs

end

/-- The grammar of statements with `n` levels left reads the clauses with at
most `n` levels. -/
theorem statement_parses (limit : Nat) : ∀ n, ParsesClauses (statement limit n) n
  | 0 => by
    intro c ts s _ hn
    exact absurd c.one_le_levels (by omega)
  | n + 1 => statementWithin_parses (sound_level limit n) (complete_level limit n)
      (statement_meets limit n).forward (statement_parses limit n)

end Grammar
end SyntaxGraph
