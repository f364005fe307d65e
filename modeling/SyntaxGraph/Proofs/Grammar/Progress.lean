/-
# Progress

At the end of the input a token can be taken again and again, so it is no argument for the
end of a loop that each of its rounds takes one. What counts is that a round which wants
another to follow has taken a proper token, and there are only so many of these.

So the loops of the grammar, which are cut off by the number of the tokens at hand, are
never cut off: they go on until a round yields nothing or fails (`Script.loops_collect`).
And a program asks for the items one by one, for each of them once, and for none behind the
end of the input or an error.

Key definitions: `Pull.Loops`, `Script.GoesRound`, `Rule.Repeats`, `readProgram`.
Key theorems: `Script.loops_collect`, `Rule.Repeats.goesRound`, `fst_readProgram`,
`Grammar.reading_progresses`.
-/
import SyntaxGraph.Proofs.Grammar.Pull

namespace SyntaxGraph

open Pull (Proceeds Follows)

/-- Rounds one after the other, until one of them yields nothing or fails; `out` is what
they come to and the feed behind them. Before another round begins, a token is taken. -/
inductive Pull.Loops {α : Type} (round : Pull (Option α)) :
    Feed → Except ParseError (List α) × Feed → Prop where
  | stops {f f' : Feed} : round.exec f = (.ok none, f') → Loops round f (.ok [], f')
  | fails {f f' : Feed} {e : ParseError} :
    round.exec f = (.error e, f') → Loops round f (.error e, f')
  | again {f f' : Feed} {a : α} {t : Token} {ts : List Token}
    {out : Except ParseError (List α) × Feed} : round.exec f = (.ok (some a), f') →
    f.Leads (t :: ts) f' → Loops round f' out → Loops round f (out.1.map (a :: ·), out.2)

namespace Grammar

namespace Script

variable {α β γ ω : Type} {call : (c : Call) → Pull c.target.Result}

/-! ### Rounds at the end of the input -/

/-- At the end of the input the round yields nothing, and does nothing. -/
def Idle (call : (c : Call) → Pull c.target.Result) (round : Script (Option α)) : Prop :=
  ∀ f : Feed, f.front.kind = .eof → (round.pull call).exec f = (.ok none, f)

theorem exec_accept_eof {kind : Token.Kind} (h : (Step.accept kind).isProper = true) {f : Feed}
    (hf : f.front.kind = .eof) : (Step.accept kind).pull.exec f = (.ok false, f) :=
  Action.exec_bind_of_ok (Pull.exec_takeFront_none (ofKind_eof (of_decide_eq_true h) hf))

theorem idle_choose {g : Token.Kind → Option α} (h : g .eof = none) :
    Idle call (monadLift (Step.choose g) : Script (Option α)) := fun f hf =>
  Action.exec_bind_of_ok (Pull.exec_takeFront_none (by rw [hf, h]))

/-- A round that starts with a token that is not in front. -/
theorem idle_accept {kind : Token.Kind} {p : Script (Option α)}
    (h : (Step.accept kind).isProper = true) :
    Idle call (do if ← Step.accept kind then p else return none) := fun _ hf =>
  Action.exec_bind_of_ok (exec_accept_eof h hf)

theorem idle_nextOperand {operator : Script (Option ω)} {operand : Script α}
    (h : Idle call operator) : Idle call (nextOperand operator operand) := by
  intro f hf
  rw [nextOperand, pull_bind]
  exact Action.exec_bind_of_ok (h f hf)

theorem idle_nextFunction : Idle call nextFunction := by
  intro f hf
  have hend : Step.atEnd.pull.exec f = (.ok true, f) := by
    show (Except.ok (decide (f.front.kind = .eof)), f) = _
    rw [hf]
    rfl
  exact Action.exec_bind_of_ok hend

/-! ### Loops -/

theorem loops_collectWithin {round : Script (Option α)}
    (htakes : Proceeds perRound (round.pull call)) (hidle : Idle call round) :
    ∀ (rounds : List Token) (f : Feed), f.stream.tokens.length ≤ rounds.length →
      Pull.Loops (round.pull call) f (((collectWithin round rounds).pull call).exec f)
  | [], f, hf => by
    have hnil : f.stream.tokens = [] := List.eq_nil_of_length_eq_zero (Nat.le_zero.mp hf)
    exact .stops (hidle f (Feed.tokens_eq_nil_iff.mp hnil))
  | _ :: others, f, hf => by
    have hround := htakes f
    rw [collectWithin, pull_bind, Action.exec_bind]
    rcases hrun : (round.pull call).exec f with ⟨e | _ | a, f'⟩
    · exact .fails hrun
    · exact .stops hrun
    · rw [hrun] at hround
      obtain ⟨ts, hts, hlead⟩ := hround
      obtain ⟨t, ts, rfl⟩ := List.exists_cons_of_length_pos hts
      -- a token less is left for the rounds that follow
      have hless : f'.stream.tokens.length ≤ others.length := by
        rw [hlead.stream_eq, TokenStream.tokens_push] at hf
        simp only [List.length_append, List.length_cons] at hf
        omega
      have hrest := Pull.Loops.again hrun hlead (loops_collectWithin htakes hidle others f' hless)
      show Pull.Loops _ f
        (((collectWithin round others >>= fun as => pure (a :: as)).pull call).exec f')
      rw [pull_bind, Action.exec_bind]
      generalize ((collectWithin round others).pull call).exec f' = out at hrest ⊢
      obtain ⟨e | as, f''⟩ := out <;> exact hrest

/-- The tokens at hand do not cut a loop off: it goes on until a round yields nothing. -/
theorem loops_collect {round : Script (Option α)} (htakes : Proceeds perRound (round.pull call))
    (hidle : Idle call round) (f : Feed) :
    Pull.Loops (round.pull call) f (((collect round).pull call).exec f) :=
  loops_collectWithin htakes hidle f.stream.tokens f (Nat.le_refl _)

/-- Behind some steps, the script reads by `first` and then loops. -/
inductive GoesRound (first : Script β) (round : Script (Option γ)) : Script α → Prop where
  | here (f : β → List γ → Script α) :
    GoesRound first round (first >>= fun b => collect round >>= f b)
  | behind {δ : Type} (s : Step δ) (next : δ → Script α) (d : δ) :
    GoesRound first round (next d) → GoesRound first round (step s next)

end Script

/-- The loops of the grammar: what a rule reads first, and the rounds behind it. -/
inductive Rule.Repeats : {α β : Type} → Rule → Script α → Script (Option β) → Prop where
  | program : Repeats .program (Script.rule .function) Script.nextFunction
  | parameters : Repeats .parameters (Script.declaration .parameterName .parameterColon)
    (Script.nextItem .comma (Script.declaration .parameterName .parameterColon))
  | declarations : Repeats .declarations (Script.declaration .declarationName .declarationColon)
    Script.furtherDeclaration
  | statements : Repeats .statements (Script.rule .statement)
    (Script.nextItem .semicolon (Script.rule .statement))
  | arguments : Repeats .arguments (Script.rule .expression)
    (Script.nextItem .comma (Script.rule .expression))
  | disjunction : Repeats .disjunction (Script.rule .conjunction)
    (Script.nextOperand (Script.connective .orWord .or) (Script.rule .conjunction))
  | conjunction : Repeats .conjunction (Script.rule .negation)
    (Script.nextOperand (Script.connective .andWord .and) (Script.rule .negation))
  | expression : Repeats .expression (Script.rule .product)
    (Script.nextOperand (monadLift (Step.choose sumOperator)) (Script.rule .product))
  | product : Repeats .product (Script.rule .signed)
    (Script.nextOperand (monadLift (Step.choose productOperator)) (Script.rule .signed))

namespace Rule.Repeats

variable {α β : Type} {r : Rule} {first : Script α} {round : Script (Option β)}

/-- The loops stand in the scripts of the rules. -/
theorem goesRound (h : r.Repeats first round) : Script.GoesRound first round (Script.ofRule r) := by
  cases h with
  | program => exact .behind _ _ () (.here fun first others => pure (Program.mk (first :: others)))
  | parameters => exact .behind _ _ false (.here fun first others => pure (first :: others))
  | declarations => exact .behind _ _ true (.here fun first others => pure (first :: others))
  | statements => exact .here fun first others => pure (first :: others)
  | arguments => exact .behind _ _ false (.here fun first others => pure (first :: others))
  | disjunction | conjunction | expression | product => exact .here _

theorem takes_first (h : r.Repeats first round) : first.Takes fun _ => 1 := by
  cases h with
  | parameters | declarations => exact Script.takes_declaration _ _
  | program | statements | arguments | disjunction | conjunction | expression | product =>
    exact Script.takes_rule _

/-- A round that is followed by another takes a token. -/
theorem takes_round (h : r.Repeats first round) : round.Takes Script.perRound := by
  cases h with
  | program => exact Script.takes_nextFunction
  | parameters => exact Script.takes_nextItem rfl (Script.takes_declaration _ _)
  | declarations => exact Script.takes_furtherDeclaration
  | statements | arguments => exact Script.takes_nextItem rfl (Script.takes_rule _)
  | disjunction | conjunction =>
    exact Script.takes_nextOperand (Script.takes_connective rfl _) (Script.takes_rule _)
  | expression | product =>
    exact Script.takes_nextOperand (Script.takes_step rfl) (Script.takes_rule _)

/-- The last round is the one at the end of the input. -/
theorem idle (h : r.Repeats first round) (call : (c : Call) → Pull c.target.Result) :
    Script.Idle call round := by
  cases h with
  | program => exact Script.idle_nextFunction
  | parameters | declarations | statements | arguments => exact Script.idle_accept rfl
  | disjunction | conjunction => exact Script.idle_nextOperand (Script.idle_accept rfl)
  | expression | product => exact Script.idle_nextOperand (Script.idle_choose rfl)

end Rule.Repeats

/-! ### Programs -/

/-- The program that a list of items holds, and the feed of the items behind it. -/
def readProgram (limit : Nat) (items : List Item) : Except ParseError Program × Feed :=
  (do Pull.start; Rule.program.pull limit limit : Pull Program).exec (.before items)

theorem proceeds_program (limit : Nat) :
    Proceeds (fun _ => 1) (Rule.program.pull limit limit) := by
  rw [← Call.pull_rule]
  exact Call.proceeds limit (.rule .program)

theorem follows_program (limit : Nat) :
    Follows (Rule.program.pull limit limit) (Grammar.program limit) := by
  have hfits : (Call.rule .program).Fits limit limit := fun _ => ⟨rfl, rfl⟩
  have hcall := Call.follows hfits
  rwa [Call.pull_rule, Call.parser_rule] at hcall

/-- A program is read as the grammar reads it from the stream of the items. -/
theorem fst_readProgram (limit : Nat) (items : List Item) :
    (readProgram limit items).1 = (TokenStream.ofItems items).parse limit := by
  have hparse : ∀ s, TokenStream.parse limit s = (Grammar.program limit s).map Prod.fst :=
    fun _ => rfl
  rw [readProgram, Action.exec_bind, hparse]
  obtain ⟨f, hstart, hstream, -⟩ | ⟨e, f, hstart, hbroken, -⟩ := Pull.exec_start items
  · rw [hstart, ← hstream, follows_program limit f]
    show ((Rule.program.pull limit limit).exec f).1 = _
    cases ((Rule.program.pull limit limit).exec f).1 <;> rfl
  · rw [hstart, hbroken]
    rfl

/-- The items are asked for in order, each of them once, and none behind the end of the
input or an error. -/
theorem snd_readProgram (limit : Nat) (items : List Item) :
    (readProgram limit items).2.InOrder items ∧
      (readProgram limit items).2.asked ≤ items.findIdx Item.isLast + 1 := by
  obtain ⟨f, hstart, hstream, horder, hasked⟩ | ⟨e, f, hstart, -, horder, hasked⟩ :=
    Pull.exec_start items
  · obtain ⟨hrest, hle⟩ := (proceeds_program limit f).fails.inOrder horder
    rw [hstream, hasked, TokenStream.ofItems, TokenStream.length_tokens_ofItemsAfter, Nat.add_comm]
      at hle
    rw [readProgram, Action.exec_bind_of_ok hstart]
    exact ⟨hrest, hle⟩
  · rw [readProgram, Action.exec_bind, hstart]
    exact ⟨horder, Nat.le_trans (Nat.le_of_eq hasked) (Nat.succ_le_succ (Nat.zero_le _))⟩

/-! ### Progress -/

/-- The rules that a loop or another rule relies on to take a token. -/
def Rule.advances : List Rule :=
  [.function, .typeName, .statement, .location, .condition, .expression, .product, .signed,
    .primary]

/-- **Reading always makes progress.** Whatever is in front and however many levels are left,
a call reads what the grammar does, and all that it does to the feed is to take proper tokens.
If a function, a type, a statement, a location or an expression of any kind is read, that
takes at least one. So does what a loop reads first, and every round of it that is followed
by another, and a loop goes on until a round yields nothing or fails. At the end of the input
nothing is asked for. Therefore a program is read by asking for the items in order and at most
once, and for none behind the end of the input. -/
theorem reading_progresses (limit : Nat) :
    (∀ (n : Nat) (c : Call), Proceeds (fun _ => c.target.least) (c.pull limit n) ∧
      (c.Fits limit n → Follows (c.pull limit n) (c.parser limit n))) ∧
    (∀ (n : Nat) (r : Rule), r ∈ Rule.advances → ∀ (f f' : Feed) (a : r.Result),
      (Call.pull limit n (.rule r)).exec f = (.ok a, f') →
      ∃ t ts, f.Leads (t :: ts) f' ∧ ∀ u ∈ t :: ts, u.kind ≠ .eof) ∧
    (∀ {α β : Type} (r : Rule) (first : Script α) (round : Script (Option β)),
      r.Repeats first round → Script.GoesRound first round (Script.ofRule r) ∧
      ∀ n : Nat, Call.pull limit n (.rule r) = (Script.ofRule r).pull (Call.pull limit n) ∧
        Proceeds (fun _ => 1) (first.pull (Call.pull limit n)) ∧
        ∀ f : Feed, Pull.Loops (round.pull (Call.pull limit n)) f
          (((Script.collect round).pull (Call.pull limit n)).exec f)) ∧
    (∀ (n : Nat) (c : Call) (f : Feed), f.front.kind = .eof → ((c.pull limit n).exec f).2 = f) ∧
    ∀ items : List Item, (readProgram limit items).1 = (TokenStream.ofItems items).parse limit ∧
      (readProgram limit items).2.waiting = items.drop (readProgram limit items).2.asked ∧
      (readProgram limit items).2.asked ≤ items.findIdx Item.isLast + 1 := by
  have hcalls : ∀ {α : Type} (n : Nat) (p : Script α),
      p.Uses fun c => Proceeds (fun _ => c.target.least) (Call.pull limit n c) := fun n p =>
    p.uses_of_forall fun c => c.proceeds n
  refine ⟨fun n c => ⟨c.proceeds n, Call.follows⟩, fun n r hr f f' a hrun => ?_,
    fun r first round h => ⟨h.goesRound, fun n => ⟨?_, ?_, ?_⟩⟩,
    fun n c f hf => (c.proceeds n).snd_exec_of_eof hf,
    fun items => ⟨fst_readProgram limit items, snd_readProgram limit items⟩⟩
  · have hleast : ∀ r ∈ Rule.advances, r.least = 1 := by decide
    have hcall : f.Passes (fun _ => r.least) ((Call.pull limit n (.rule r)).exec f) :=
      Call.proceeds n (.rule r) f
    rw [hrun] at hcall
    obtain ⟨ts, hlength, hlead⟩ := hcall
    obtain ⟨t, ts, rfl⟩ := List.exists_cons_of_length_pos (hleast r hr ▸ hlength : 1 ≤ ts.length)
    exact ⟨t, ts, hlead, hlead.kind_ne_eof⟩
  · rw [Call.pull_rule, Rule.pull_eq]
  · exact Script.proceeds (hcalls n first) h.takes_first
  · exact Script.loops_collect (Script.proceeds (hcalls n round) h.takes_round) (h.idle _)

end Grammar
end SyntaxGraph
