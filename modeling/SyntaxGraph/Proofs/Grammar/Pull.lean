/-
# Rules that ask for items

The rules of the grammar are read from a feed by carrying out the steps of their scripts on
it, so that an item is asked for when the token before it is taken, and not earlier. What
comes out is what the grammar reads from the stream of the feed (`Call.follows`); and on the
way nothing is done to the feed but to take proper tokens, at least as many as the rule is
said to take (`Call.proceeds`).

Key definitions: `Step.pull`, `Script.pull`, `Rule.pull`, `Call.pull`.
Key theorems: `Call.proceeds`, `Call.follows`.
-/
import SyntaxGraph.Proofs.Grammar.Feed
import SyntaxGraph.Proofs.Grammar.ScriptRun
import SyntaxGraph.Proofs.Grammar.Taken

namespace SyntaxGraph

open Pull (Proceeds Follows)

namespace Grammar

/-! ### Steps -/

/-- The token, if it is of the kind `kind`. -/
def ofKind (kind : Token.Kind) (t : Token) : Option Token :=
  if t.kind = kind then some t else none

/-- A number as it is written in the token `t`, which is blamed if there is none. -/
def numberOf (number : Option Number) (t : Token) (expected : Expectation) : Pull Expr :=
  match number with
  | some x => return .number x
  | none => throw (.grammar ⟨some t, expected, t.position⟩)

/-- A literal in front, as a number. -/
def pullLiteral : Pull (Option Expr) := do
  if let some t ← Pull.takeFront (ofKind .intLiteral) then
    return some (← numberOf ((Decimal.readInt t.text.toList).map .int) t .integer)
  else if let some t ← Pull.takeFront (ofKind .floatLiteral) then
    return some (← numberOf ((Decimal.readFloat t.text.toList).map .float) t .float)
  else return none

/-- What a step does to a feed. -/
def Step.pull : {α : Type} → Step α → Pull α
  | _, peek test => return test (← Pull.front).kind
  | _, choose f => Pull.takeFront fun t => f t.kind
  | _, accept kind => return (← Pull.takeFront (ofKind kind)).isSome
  | _, name => Pull.takeFront (ofKind .ident)
  | _, literal => pullLiteral
  | _, expect kind place => do
    match ← Pull.takeFront (ofKind kind) with
    | some t => return t
    | none => Pull.refuse (.token kind place)
  | _, refuse expected => Pull.refuse expected
  | _, settle => return ()
  | _, atEnd => return (← Pull.front).kind = .eof
  | _, atHand => fun f => (.ok f.stream.tokens, f)

theorem ofKind_eof {kind t} (hkind : kind ≠ .eof) (ht : t.kind = .eof) : ofKind kind t = none :=
  if_neg fun h => hkind (h.symm.trans ht)

theorem proceeds_numberOf (number : Option Number) (t : Token) (x : Expectation) :
    Proceeds (fun _ => 0) (numberOf number t x) := by
  cases number with
  | none => exact Pull.proceeds_throw _
  | some y => exact Pull.proceeds_pure rfl

theorem proceeds_pullLiteral : Proceeds (fun o => if o.isSome then 1 else 0) pullLiteral := by
  have hnumber : ∀ number t x, Proceeds (fun o : Option Expr => (if o.isSome then 1 else 0) - 1)
      (do return some (← numberOf number t x)) := fun number t x =>
    (proceeds_numberOf number t x).bind fun _ => Pull.proceeds_pure rfl
  refine (Proceeds.takeFront fun t => ofKind_eof (by decide)).bind
    (Option.rec ?_ fun t => hnumber _ t _)
  refine (Proceeds.takeFront fun t => ofKind_eof (by decide)).bind
    (Option.rec ?_ fun t => hnumber _ t _)
  exact Pull.proceeds_pure rfl

/-- Each step proceeds: it takes a token if its answer says so. -/
theorem Step.proceeds {α : Type} (s : Step α) (h : s.isProper = true) :
    Proceeds s.taken s.pull := by
  cases s with
  | peek test => exact fun f => ⟨[], Nat.le_refl 0, .refl f⟩
  | choose g =>
    exact Proceeds.takeFront fun t ht => by rw [ht]; exact Option.isNone_iff_eq_none.mp h
  | accept kind =>
    refine (Proceeds.takeFront fun t => ofKind_eof (of_decide_eq_true h)).bind fun o => ?_
    exact Pull.proceeds_pure (Nat.sub_self _)
  | name => exact Proceeds.takeFront fun t => ofKind_eof (by decide)
  | literal => exact proceeds_pullLiteral
  | expect kind place =>
    refine (Proceeds.takeFront fun t => ofKind_eof (of_decide_eq_true h)).bind ?_
    exact Option.rec (Pull.proceeds_refuse _) fun t => Pull.proceeds_pure rfl
  | refuse x => exact Pull.proceeds_refuse x
  | settle => exact Pull.proceeds_pure rfl
  | atEnd => exact fun f => ⟨[], Nat.le_refl 0, .refl f⟩
  | atHand => exact fun f => ⟨[], Nat.le_refl 0, .refl f⟩

theorem follows_pullLiteral : Follows pullLiteral Grammar.literal := by
  have hint : ∀ t : Token, Follows (numberOf ((Decimal.readInt t.text.toList).map .int) t .integer)
      (integer t) := by
    intro t f
    rw [integer]
    cases Decimal.readInt t.text.toList <;> rfl
  have hfloat : ∀ t : Token,
      Follows (numberOf ((Decimal.readFloat t.text.toList).map .float) t .float) (float t) := by
    intro t f
    rw [float]
    cases Decimal.readFloat t.text.toList <;> rfl
  refine (Follows.takeFront fun t => ofKind_eof (by decide)).bind
    (Option.rec ?_ fun t => (hint t).bind fun _ => Pull.follows_pure _)
  refine (Follows.takeFront fun t => ofKind_eof (by decide)).bind
    (Option.rec ?_ fun t => (hfloat t).bind fun _ => Pull.follows_pure _)
  exact Pull.follows_pure none

/-- Each step follows the grammar. -/
theorem Step.follows {α : Type} (s : Step α) (h : s.isProper = true) : Follows s.pull s.run := by
  cases s with
  | peek test =>
    intro f
    by_cases heof : f.front.kind = .eof
    · have htest : test .eof = false := by simpa [isProper] using h
      rw [run, peek_run, Feed.stream_of_eof heof]
      show _ = Except.ok (test f.front.kind, f.stream)
      rw [heof, htest, Feed.stream_of_eof heof]
      rfl
    · rw [run, peek_run, Feed.stream_of_token heof, TokenStream.next_push_cons]
      show _ = Except.ok (test f.front.kind, f.stream)
      rw [Feed.stream_of_token heof]
      rfl
  | choose g =>
    exact Follows.takeFront fun t ht => by rw [ht]; exact Option.isNone_iff_eq_none.mp h
  | accept kind =>
    exact (Follows.takeFront fun t => ofKind_eof (of_decide_eq_true h)).bind fun o =>
      Pull.follows_pure o.isSome
  | name => exact Follows.takeFront fun t => ofKind_eof (by decide)
  | literal => exact follows_pullLiteral
  | expect kind place =>
    refine (Follows.takeFront fun t => ofKind_eof (of_decide_eq_true h)).bind ?_
    exact Option.rec (Pull.follows_refuse _) fun t => Pull.follows_pure t
  | refuse x => exact Pull.follows_refuse x
  | settle => exact fun f => settle_run f.settled
  | atEnd =>
    intro f
    rw [run, atEnd_run]
    show _ = Except.ok (decide (f.front.kind = .eof), f.stream)
    rw [Bool.eq_iff_iff.mpr
      (List.isEmpty_iff.trans (Feed.tokens_eq_nil_iff.trans decide_eq_true_iff.symm))]
  | atHand => exact fun f => rfl

/-! ### Scripts -/

namespace Script

variable {α β : Type}

/-- What a script reads from a feed, if a call `c` reads what `call c` does. -/
def pull (call : (c : Call) → Pull c.target.Result) : Script α → Pull α
  | done a => pure a
  | step s next => s.pull >>= fun b => (next b).pull call
  | .call c next => call c >>= fun b => (next b).pull call

variable {call call' : (c : Call) → Pull c.target.Result}

theorem pull_bind (p : Script α) (f : α → Script β) :
    (p >>= f).pull call = p.pull call >>= fun a => (f a).pull call := by
  induction p with
  | done a => exact (pure_bind a fun a => (f a).pull call).symm
  | step s next ih =>
    calc (step s next >>= f).pull call = s.pull >>= fun b => (next b >>= f).pull call := rfl
      _ = s.pull >>= fun b => (next b).pull call >>= fun a => (f a).pull call := by simp only [ih]
      _ = (step s next).pull call >>= fun a => (f a).pull call := (bind_assoc _ _ _).symm
  | call c next ih =>
    calc (Script.call c next >>= f).pull call = call c >>= fun b => (next b >>= f).pull call := rfl
      _ = call c >>= fun b => (next b).pull call >>= fun a => (f a).pull call := by simp only [ih]
      _ = (Script.call c next).pull call >>= fun a => (f a).pull call := (bind_assoc _ _ _).symm

/-- What a script reads depends on its own calls only. -/
theorem pull_congr {p : Script α} (h : p.Uses fun c => call c = call' c) :
    p.pull call = p.pull call' := by
  induction p with
  | done a => rfl
  | step s next ih => exact bind_congr fun b => ih b (h b)
  | call c next ih =>
    rw [pull, pull, h.1]
    exact bind_congr fun b => ih b (h.2 b)

theorem uses_of_forall {P : Call → Prop} (p : Script α) (h : ∀ c, P c) : p.Uses P := by
  induction p with
  | done a => trivial
  | step s next ih => exact ih
  | call c next ih => exact ⟨h c, ih⟩

/-- A script proceeds as far as it is said to, if its calls do. -/
theorem proceeds {p : Script α} {k : α → Nat}
    (hcall : p.Uses fun c => Proceeds (fun _ => c.target.least) (call c)) (h : p.Takes k) :
    Proceeds k (p.pull call) := by
  induction p generalizing k with
  | done a => exact Pull.proceeds_pure h
  | step s next ih =>
    rcases h with hrefusal | ⟨hs, hnext⟩
    · cases s with
      | refuse x => exact Pull.proceeds_refuse x
      | _ => cases hrefusal
    · exact (s.proceeds hs).bind fun b => ih b (hcall b) (hnext b)
  | call c next ih => exact hcall.1.bind fun b => ih b (hcall.2 b) (h b)

/-- A script follows what it reads from a stream, if its calls do. -/
theorem follows {p : Script α} {k : α → Nat} {parsers : (c : Call) → Parser c.target.Result}
    (hcall : p.Uses fun c => Follows (call c) (parsers c)) (h : p.Takes k) :
    Follows (p.pull call) (p.run parsers) := by
  induction p generalizing k with
  | done a => exact Pull.follows_pure a
  | step s next ih =>
    rcases h with hrefusal | ⟨hs, hnext⟩
    · cases s with
      | refuse x =>
        rw [run, Step.run, unexpected_bind]
        exact Pull.follows_refuse x
      | _ => cases hrefusal
    · exact (s.follows hs).bind fun b => ih b (hcall b) (hnext b)
  | call c next ih => exact hcall.1.bind fun b => ih b (hcall.2 b) (h b)

end Script

/-! ### Rules and calls -/

section

variable (limit : Nat)

/-- What a rule reads from a feed, with `n` levels left. It comes back to itself one level
further down only: direct calls go down in rank. -/
def Rule.pull : (n : Nat) → (r : Rule) → Pull r.Result
  | 0, r => (Script.ofRule r).pull fun
    | .rule r' =>
      if _h : .rule r' ∈ r.calls then Rule.pull 0 r' else Pull.refuse (.nesting limit)
    | .nested _ => Pull.refuse (.nesting limit)
  | n + 1, r => (Script.ofRule r).pull fun
    | .rule r' =>
      if _h : .rule r' ∈ r.calls then Rule.pull (n + 1) r' else Pull.refuse (.nesting limit)
    | .nested r' => Rule.pull n r'
termination_by n r => (n, r.rank)
decreasing_by
  · exact Prod.Lex.right _ (Rule.rank_lt _h)
  · exact Prod.Lex.right _ (Rule.rank_lt _h)
  · exact Prod.Lex.left _ _ (Nat.lt_succ_self n)

/-- What a call reads from a feed, with `n` levels left. -/
def Call.pull : Nat → (c : Call) → Pull c.target.Result
  | n, rule r => r.pull limit n
  | 0, nested _ => Pull.refuse (.nesting limit)
  | n + 1, nested r => r.pull limit n

end

variable {limit : Nat}

theorem Call.pull_rule (n : Nat) (r : Rule) : Call.pull limit n (.rule r) = r.pull limit n := by
  cases n <;> rfl

/-- A rule reads what its script does. -/
theorem Rule.pull_eq (n : Nat) (r : Rule) :
    r.pull limit n = (Script.ofRule r).pull (Call.pull limit n) := by
  cases n with
  | zero =>
    rw [Rule.pull]
    refine Script.pull_congr ((Script.uses_ofRule r).mono fun c hc => ?_)
    cases c with
    | rule r' => exact dif_pos hc
    | nested r' => rfl
  | succ n =>
    rw [Rule.pull]
    refine Script.pull_congr ((Script.uses_ofRule r).mono fun c hc => ?_)
    cases c with
    | rule r' => exact dif_pos hc
    | nested r' => rfl

/-- Every call proceeds, and takes as many tokens as its rule does at least. -/
theorem Call.proceeds (n : Nat) (c : Call) :
    Proceeds (fun _ => c.target.least) (c.pull limit n) := by
  refine Call.induction (P := fun n c => Proceeds (fun _ => c.target.least) (c.pull limit n))
    ?_ ?_ ?_ n c
  · intro n r ih
    rw [Call.pull_rule, Rule.pull_eq]
    exact Script.proceeds ((Script.uses_ofRule r).mono ih) (Script.takes_ofRule r)
  · exact fun r => Pull.proceeds_refuse _
  · intro n r ih
    rwa [Call.pull_rule] at ih

/-- **Every call follows the grammar.** -/
theorem Call.follows {n : Nat} {c : Call} (h : c.Fits limit n) :
    Follows (c.pull limit n) (c.parser limit n) := by
  refine Call.induction
    (P := fun n c => c.Fits limit n → Follows (c.pull limit n) (c.parser limit n)) ?_ ?_ ?_ n c h
  · intro n r ih hr
    rw [Call.pull_rule, Call.parser_rule, Rule.pull_eq,
      ← Script.run_ofRule r fun houter => (hr houter).2]
    exact Script.follows ((Script.uses_ofRule r).mono fun c hc => ih c hc (hr.of_mem_calls hc))
      (Script.takes_ofRule r)
  · exact fun r _ => Pull.follows_refuse _
  · intro n r ih hr
    have hrule := ih hr.opened
    rwa [Call.pull_rule, Call.parser_rule] at hrule

end Grammar
end SyntaxGraph
