/-
# What the grammar of statements reads

Every part of the grammar of statements reads a clause that keeps the rules,
opens no more levels than are left, and does not end in an `if` that could take
in an `else` in front. Where a part fails, what it has taken begins such a
clause.

Key definitions: `Grammar.ReadsClause`, `Grammar.IsClause`.
Key theorems: `Grammar.statement_meets`, `Grammar.statements_meets`.
-/
import SyntaxGraph.Proofs.Grammar.Clause
import SyntaxGraph.Proofs.Grammar.ExprVerdict

namespace SyntaxGraph
namespace Grammar

open TokenStream Clause

/-- The statement is read as a clause with at most `n` levels. -/
def ReadsClause (n : Nat) : Reads Stmt := fun a w s =>
  ∃ c : Clause, c.tree = a ∧ c.yield = w ∧ c.Grammatical ∧ c.levels ≤ n ∧
    (c.endsInIf = true → s.next ≠ some .elseWord)

/-- The word is a clause. -/
def IsClause (w : List Terminal) : Prop :=
  ∃ c : Clause, c.yield = w ∧ c.Grammatical

/-- A clause that does not end in an `if` is read whatever is behind it. -/
theorem reads_clause {n : Nat} {c : Clause} {s : TokenStream} (hg : c.Grammatical)
    (hn : c.levels ≤ n) (hif : c.endsInIf = false) : ReadsClause n c.tree c.yield s :=
  ⟨c, rfl, rfl, hg, hn, fun h => by simp [hif] at h⟩

theorem isClause {c : Clause} (h : c.Grammatical) : IsClause c.yield :=
  ⟨c, rfl, h⟩

/-- The statement that a plain or an updating assignment stands for. -/
def assignmentTree : Option Update → Expr → Expr → Stmt
  | none, target, value => .assign target value
  | some op, target, value => .update op target value

/-- The target is read with at most `n` levels. -/
def ReadsTarget (n : Nat) : Reads Expr := fun a w _ =>
  ∃ l : Phrase, l.tree = a ∧ l.yield = w ∧ l.IsTarget ∧ l.targetLevels ≤ n

/-- The word is a target. -/
def IsTargetWord (w : List Terminal) : Prop :=
  ∃ l : Phrase, l.yield = w ∧ l.IsTarget

section

variable {limit n : Nat} {deeper : Option Level}

theorem location_meets (h : SoundBelow n deeper) :
    Meets (location limit deeper) (ReadsTarget n) IsTargetWord := by
  intro s
  refine passes_expectToken_bind ⟨[.ident "x"], .var "x", rfl, trivial⟩ fun t r ht => ?_
  rw [Token.terminal_ident ht]
  refine passes_accept_bind rfl (fun r _ => (expression_meets h r).bind ?_ ?_) fun _ =>
    passes_pure ⟨.var t.text, rfl, rfl, trivial, Nat.zero_le n⟩
  · intro w hw
    obtain ⟨i, rfl, hi⟩ := hw
    exact ⟨[.word .rBracket], .entry t.text i, by simp [Phrase.yield], hi⟩
  · intro a w r hread
    obtain ⟨i, rfl, rfl, hi, -⟩ := hread
    refine passes_expect_bind rfl ⟨[.word .rBracket], .entry t.text i, by simp [Phrase.yield],
      hi.fits, hi.grammatical⟩ fun _ r => ?_
    exact passes_pure ⟨.entry t.text i, rfl, by simp [Phrase.yield], ⟨hi.fits, hi.grammatical⟩,
      hi.levels⟩

theorem printStatement_meets : Meets printStatement
    (fun a w s => ReadsClause (n + 1) a (.word .printWord :: w) s)
    (fun w => IsClause (.word .printWord :: w)) := by
  intro s
  have hwhole : ∀ text,
      IsClause (.word .printWord :: .word .lParen :: .string text :: [.word .rParen]) :=
    fun text => isClause (c := .print text) trivial
  refine passes_expect_bind rfl ⟨_, hwhole ""⟩ fun _ r => ?_
  refine passes_expectToken_bind ⟨_, hwhole ""⟩ fun t r ht => ?_
  rw [Token.terminal_string ht]
  refine passes_expect_bind rfl ⟨_, hwhole t.text⟩ fun _ r => passes_pure ?_
  exact reads_clause (c := .print t.text) trivial (Nat.le_add_left 1 n) rfl

theorem readStatement_meets (h : SoundBelow n deeper) : Meets (readStatement limit deeper)
    (fun a w s => ReadsClause (n + 1) a (.word .readWord :: w) s)
    (fun w => IsClause (.word .readWord :: w)) := by
  intro s
  have hwhole : ∀ l : Phrase, l.IsTarget →
      IsClause (.word .readWord :: .word .lParen :: (l.yield ++ [.word .rParen])) :=
    fun l hl => isClause (c := .read l) hl
  refine passes_expect_bind rfl ⟨_, hwhole (.var "x") trivial⟩ fun _ r => ?_
  refine (location_meets h r).bind ?_ ?_
  · intro w hw
    obtain ⟨l, rfl, hl⟩ := hw
    exact ⟨_, hwhole l hl⟩
  · intro a w r hread
    obtain ⟨l, rfl, rfl, hl, hn⟩ := hread
    refine passes_expect_bind rfl ⟨_, hwhole l hl⟩ fun _ r => passes_pure ?_
    exact reads_clause (c := .read l) hl (Nat.succ_le_succ hn) rfl

theorem writeStatement_meets (h : SoundBelow n deeper) : Meets (writeStatement limit deeper)
    (fun a w s => ReadsClause (n + 1) a (.word .writeWord :: w) s)
    (fun w => IsClause (.word .writeWord :: w)) := by
  intro s
  have hwhole : ∀ e : Phrase, e.Fits .sum → e.Grammatical →
      IsClause (.word .writeWord :: .word .lParen :: (e.yield ++ [.word .rParen])) :=
    fun e hfits he => isClause (c := .write e) ⟨hfits, he⟩
  obtain ⟨_, e, rfl, hfits, he⟩ := exists_isPhrase .sum
  refine passes_expect_bind rfl ⟨_, hwhole e hfits he⟩ fun _ r => ?_
  refine (expression_meets h r).bind ?_ ?_
  · intro w hw
    obtain ⟨e, rfl, hfits, he⟩ := hw
    exact ⟨_, hwhole e hfits he⟩
  · intro a w r hread
    obtain ⟨e, rfl, rfl, he, -⟩ := hread
    refine passes_expect_bind rfl ⟨_, hwhole e he.fits he.grammatical⟩ fun _ r => passes_pure ?_
    exact reads_clause (c := .write e) ⟨he.fits, he.grammatical⟩ (Nat.succ_le_succ he.levels) rfl

theorem assignment_meets (h : SoundBelow n deeper) :
    Meets (assignment limit deeper) (ReadsClause (n + 1)) IsClause := by
  intro s
  have hwhole : ∀ update, ∀ l e : Phrase, l.IsTarget → e.Fits .sum → e.Grammatical →
      IsClause (l.yield ++ .word (Update.kindOf update) :: e.yield) :=
    fun update l e hl hfits he => isClause (c := .assign update l e) ⟨hl, hfits, he⟩
  obtain ⟨_, x, rfl, hx, hxg⟩ := exists_isPhrase .sum
  refine (location_meets h s).bind ?_ ?_
  · intro w hw
    obtain ⟨l, rfl, hl⟩ := hw
    exact ⟨_, hwhole none l x hl hx hxg⟩
  intro target w r hread
  obtain ⟨l, rfl, rfl, hl, hn⟩ := hread
  -- what every sign of an assignment goes on with
  have hvalue : ∀ (update : Option Update) r, Passes r
      (fun b v s => ReadsClause (n + 1) (assignmentTree update l.tree b)
        (l.yield ++ .word (Update.kindOf update) :: v) s)
      (fun v => IsClause (l.yield ++ .word (Update.kindOf update) :: v))
      (expression limit deeper r) := fun update r =>
    (expression_meets h r).imp
      (fun a w r ⟨e, ha, hw, he, _⟩ => ⟨.assign update l e, by rw [← ha]; cases update <;> rfl,
        by rw [← hw]; rfl, ⟨hl, he.fits, he.grammatical⟩,
        Nat.succ_le_succ (Nat.max_le.mpr ⟨hn, he.levels⟩), nofun⟩)
      fun w ⟨e, hw, hfits, he⟩ => ⟨[], .assign update l e, by rw [← hw]; simp [Clause.yield],
        hl, hfits, he⟩
  refine passes_choose_bind (fun t update r hk _ => ?_) fun _ =>
    passes_unexpected ⟨_, hwhole none l x hl hx hxg⟩
  rw [assignmentOf_eq_some] at hk
  rw [Token.terminal_of_kind (k := Update.kindOf update) (by rcases update with _ | _ | _ <;> rfl) hk]
  rcases update with _ | op
  · refine (hvalue none r).bind (fun w hw => ⟨[], by simpa using hw⟩) ?_
    exact fun b w r hb => passes_pure (by simpa [assignmentTree] using hb)
  · refine (hvalue (some op) r).bind (fun w hw => ⟨[], by simpa using hw⟩) ?_
    exact fun b w r hb => passes_pure (by simpa [assignmentTree] using hb)

/-- The branches of an `if` behind the word. An `else` is taken as soon as it
is in front, so the branch before it does not end in an open `if`. -/
theorem ifStatement_meets {inner : Parser Stmt} (h : SoundBelow n deeper)
    (hinner : Meets inner (ReadsClause n) IsClause) : Meets (ifStatement limit deeper inner)
      (fun a w s => ReadsClause (n + 1) a (.word .ifWord :: w) s)
      (fun w => IsClause (.word .ifWord :: w)) := by
  intro s
  have hwhole : ∀ (c : Phrase) (s : Clause), c.Grammatical → s.Grammatical →
      IsClause (.word .ifWord :: (c.yield ++ .word .thenWord :: s.yield)) :=
    fun c s hc hs => isClause (c := .ifThen c s) ⟨hc, hs⟩
  refine (condition_meets h s).bind ?_ ?_
  · intro w hw
    obtain ⟨c, rfl, -, hc⟩ := hw
    exact ⟨_, hwhole c .skip hc trivial⟩
  intro c w r hread
  obtain ⟨c, rfl, rfl, hc, -⟩ := hread
  refine passes_expect_bind rfl ⟨_, hwhole c .skip hc.grammatical trivial⟩ fun _ r => ?_
  refine (hinner r).bind ?_ ?_
  · intro w hw
    obtain ⟨s, rfl, hs⟩ := hw
    exact ⟨[], by simpa using hwhole c s hc.grammatical hs⟩
  intro yes w r hread
  obtain ⟨yes, rfl, rfl, hyes, hyesn, hif⟩ := hread
  refine passes_accept_bind rfl (fun r' hr => (hinner r').bind ?_ ?_) fun hr => passes_pure ?_
  · intro w hw
    obtain ⟨no, rfl, hno⟩ := hw
    refine ⟨[], ?_⟩
    have hall : (ifThenElse c yes no).Grammatical :=
      ⟨hc.grammatical, hyes, Bool.eq_false_iff.mpr fun hopen => hif hopen hr, hno⟩
    simpa [Clause.yield] using isClause hall
  · intro no w r'' hread
    obtain ⟨no, rfl, rfl, hno, hnon, hnoif⟩ := hread
    refine passes_pure ⟨.ifThenElse c yes no, rfl, by simp [Clause.yield], ⟨hc.grammatical, hyes,
      Bool.eq_false_iff.mpr fun hopen => hif hopen hr, hno⟩, ?_, hnoif⟩
    exact Nat.succ_le_succ (Nat.max_le.mpr ⟨hc.levels, Nat.max_le.mpr ⟨hyesn, hnon⟩⟩)
  · exact ⟨.ifThen c yes, rfl, by simp [Clause.yield], ⟨hc.grammatical, hyes⟩,
      Nat.succ_le_succ (Nat.max_le.mpr ⟨hc.levels, hyesn⟩), fun _ => hr⟩

theorem whileStatement_meets {inner : Parser Stmt} (h : SoundBelow n deeper)
    (hinner : Meets inner (ReadsClause n) IsClause) : Meets (whileStatement limit deeper inner)
      (fun a w s => ReadsClause (n + 1) a (.word .whileWord :: w) s)
      (fun w => IsClause (.word .whileWord :: w)) := by
  intro s
  have hwhole : ∀ (c : Phrase) (s : Clause), c.Grammatical → s.Grammatical →
      IsClause (.word .whileWord :: (c.yield ++ .word .doWord :: s.yield)) :=
    fun c s hc hs => isClause (c := .whileDo c s) ⟨hc, hs⟩
  refine (condition_meets h s).bind ?_ ?_
  · intro w hw
    obtain ⟨c, rfl, -, hc⟩ := hw
    exact ⟨_, hwhole c .skip hc trivial⟩
  intro c w r hread
  obtain ⟨c, rfl, rfl, hc, -⟩ := hread
  refine passes_expect_bind rfl ⟨_, hwhole c .skip hc.grammatical trivial⟩ fun _ r => ?_
  refine (hinner r).bind ?_ ?_
  · intro w hw
    obtain ⟨s, rfl, hs⟩ := hw
    exact ⟨[], by simpa using hwhole c s hc.grammatical hs⟩
  · intro body w r hread
    obtain ⟨body, rfl, rfl, hbody, hbodyn, hif⟩ := hread
    exact passes_pure ⟨.whileDo c body, rfl, by simp [Clause.yield], ⟨hc.grammatical, hbody⟩,
      Nat.succ_le_succ (Nat.max_le.mpr ⟨hc.levels, hbodyn⟩), hif⟩

/-- Statements with semicolons in between are read as clauses. -/
theorem statements_meets {inner : Parser Stmt} (hinner : Meets inner (ReadsClause n) IsClause) :
    Meets (separated .semicolon inner)
      (fun as w _ => ∃ cs : List Clause, cs ≠ [] ∧ cs.map Clause.tree = as ∧
        joined .semicolon (cs.map Clause.yield) = w ∧ ∀ c ∈ cs, c.Grammatical ∧ c.levels ≤ n)
      (fun w => ∃ cs : List Clause, cs ≠ [] ∧ joined .semicolon (cs.map Clause.yield) = w ∧
        ∀ c ∈ cs, c.Grammatical) := by
  refine separated_meets rfl (fun c hc => hc.1) fun s => (hinner s).imp ?_ ?_
  · exact fun a w r ⟨c, ha, hw, hc, hn, _⟩ => ⟨c, ha, hw, hc, hn⟩
  · exact fun w hw => ⟨[], by rw [List.append_nil]; exact hw⟩

theorem blockStatement_meets {inner : Parser Stmt} (hinner : Meets inner (ReadsClause n) IsClause) :
    Meets (blockStatement inner)
      (fun a w s => ReadsClause (n + 1) a (.word .beginWord :: w) s)
      (fun w => IsClause (.word .beginWord :: w)) := by
  intro s
  have hwhole : ∀ cs : List Clause, cs ≠ [] → (∀ c ∈ cs, c.Grammatical) →
      IsClause (.word .beginWord :: (joined .semicolon (cs.map Clause.yield) ++ [.word .endWord])) := by
    intro cs hne hcs
    simpa [Clause.yield] using isClause (c := .block cs) ⟨hne, by simpa using hcs⟩
  refine (statements_meets hinner s).bind ?_ ?_
  · intro w hw
    obtain ⟨cs, hne, rfl, hcs⟩ := hw
    exact ⟨_, hwhole cs hne hcs⟩
  · intro as w r hread
    obtain ⟨cs, hne, rfl, rfl, hcs⟩ := hread
    refine passes_accept_bind rfl (fun r' _ => passes_pure ?_) fun _ =>
      passes_unexpected ⟨_, hwhole cs hne fun c hc => (hcs c hc).1⟩
    have hg : (block cs).Grammatical := ⟨hne, by simpa using fun c hc => (hcs c hc).1⟩
    have hn : (block cs).levels ≤ n + 1 := by
      simpa [Clause.levels] using fun c hc => (hcs c hc).2
    simpa [Clause.yield, Clause.tree] using reads_clause (s := r') hg hn rfl

theorem statementWithin_meets {inner : Parser Stmt} (h : SoundBelow n deeper)
    (hinner : Meets inner (ReadsClause n) IsClause) :
    Meets (statementWithin limit deeper inner) (ReadsClause (n + 1)) IsClause := by
  intro s
  refine passes_accept_bind rfl (fun r _ => printStatement_meets r) fun _ => ?_
  refine passes_accept_bind rfl (fun r _ => ifStatement_meets h hinner r) fun _ => ?_
  refine passes_accept_bind rfl (fun r _ => whileStatement_meets h hinner r) fun _ => ?_
  refine passes_accept_bind rfl (fun r _ => readStatement_meets h r) fun _ => ?_
  refine passes_accept_bind rfl (fun r _ => writeStatement_meets h r) fun _ => ?_
  refine passes_accept_bind rfl (fun r _ => (expression_meets h r).bind ?_ ?_) fun _ => ?_
  · intro w hw
    obtain ⟨e, rfl, he⟩ := hw
    exact ⟨[], by simpa [Clause.yield] using isClause (c := .ret e) he⟩
  · intro a w r hread
    obtain ⟨e, rfl, rfl, he, -⟩ := hread
    refine passes_pure ?_
    simpa [Clause.yield, Clause.tree] using reads_clause (c := .ret e) (s := r) ⟨he.fits, he.grammatical⟩
      (Nat.succ_le_succ he.levels) rfl
  refine passes_accept_bind rfl (fun r _ => passes_pure ?_) fun _ => ?_
  · exact reads_clause (c := .leave) trivial (Nat.le_add_left 1 n) rfl
  refine passes_accept_bind rfl (fun r _ => passes_pure ?_) fun _ => ?_
  · exact reads_clause (c := .skip) trivial (Nat.le_add_left 1 n) rfl
  refine passes_accept_bind rfl (fun r _ => blockStatement_meets hinner r) fun _ => ?_
  refine passes_peek_bind ?_
  split
  · exact assignment_meets h s
  · exact passes_unexpected ⟨_, isClause (c := .skip) trivial⟩

end

/-- The grammar of statements with `n` levels left reads clauses with at most
`n` levels. -/
theorem statement_meets (limit : Nat) : ∀ n, Meets (statement limit n) (ReadsClause n) IsClause
  | 0 => fun _ => passes_unexpected ⟨_, isClause (c := .skip) trivial⟩
  | n + 1 => statementWithin_meets (sound_level limit n) (statement_meets limit n)

end Grammar
end SyntaxGraph
