/-
# Runs of the elementary parts of the grammar

A stream is the tokens taken and the stream that is left (`TokenStream.push`).
What an elementary parser does is given by what is in front: it takes that
token or it does not, and it fails with the refusal of the stream at hand.

A stream is settled when no lexical error has come to its front. A parser that
has taken a token leaves a settled stream.

Key definitions: `TokenStream.push`, `TokenStream.next`, `TokenStream.refusal`,
`TokenStream.Settled`.
Key theorems: `Grammar.bind_run`, `Grammar.choose_push`, `Grammar.expect_push`,
`Grammar.collect_eq`.
-/
import SyntaxGraph.Grammar.Program

namespace SyntaxGraph
namespace TokenStream

/-- The stream with the tokens `ts` in front. -/
def push (ts : List Token) (s : TokenStream) : TokenStream :=
  ⟨ts ++ s.tokens, s.ending⟩

/-- The kind of the token in front. -/
def next (s : TokenStream) : Option Token.Kind :=
  s.tokens.head?.map Token.kind

/-- The error that a parser fails with when it wants something else than what
is in front. -/
def refusal (s : TokenStream) (expected : Expectation) : ParseError :=
  match s.tokens, s.ending with
  | t :: _, _ => .grammar ⟨some t, expected, t.position⟩
  | [], .endOfInput p => .grammar ⟨none, expected, p⟩
  | [], .broken e => .lexical e

/-- No lexical error is in front. -/
def Settled (s : TokenStream) : Prop :=
  ∀ e, s ≠ ⟨[], .broken e⟩

@[simp] theorem push_nil (s : TokenStream) : s.push [] = s := rfl

@[simp] theorem push_push (ts us : List Token) (s : TokenStream) :
    (s.push us).push ts = s.push (ts ++ us) := by
  simp [push]

@[simp] theorem tokens_push (ts : List Token) (s : TokenStream) :
    (s.push ts).tokens = ts ++ s.tokens := rfl

@[simp] theorem ending_push (ts : List Token) (s : TokenStream) :
    (s.push ts).ending = s.ending := rfl

@[simp] theorem next_push_cons (t : Token) (ts : List Token) (s : TokenStream) :
    (s.push (t :: ts)).next = some t.kind := rfl

theorem push_cons (t : Token) (ts : List Token) (s : TokenStream) :
    s.push (t :: ts) = (s.push ts).push [t] := rfl

theorem settled_of_endOfInput {ts : List Token} {p : Position} :
    Settled ⟨ts, .endOfInput p⟩ := by
  intro e h
  simp at h

theorem settled_of_ne_nil {s : TokenStream} (h : s.tokens ≠ []) : s.Settled := by
  rintro e rfl
  exact h rfl

/-- A refusal is a lexical error, or a syntax error with what was expected. -/
theorem refusal_cases (s : TokenStream) (x : Expectation) :
    (∃ e, s.refusal x = .lexical e) ∨ ∃ e, s.refusal x = .grammar e ∧ e.expected = x := by
  obtain ⟨_ | ⟨t, ts⟩, p | e⟩ := s
  · exact .inr ⟨_, rfl, rfl⟩
  · exact .inl ⟨e, rfl⟩
  · exact .inr ⟨_, rfl, rfl⟩
  · exact .inr ⟨_, rfl, rfl⟩

theorem Settled.push {s : TokenStream} (h : s.Settled) (ts : List Token) :
    (s.push ts).Settled := by
  cases ts with
  | nil => exact h
  | cons t ts => exact settled_of_ne_nil (by simp)

theorem eq_push_or_tokens_eq_nil (s : TokenStream) :
    (∃ t r, s = push [t] r) ∨ s.tokens = [] := by
  obtain ⟨_ | ⟨t, ts⟩, ending⟩ := s
  · exact .inr rfl
  · exact .inl ⟨t, ⟨ts, ending⟩, rfl⟩

end TokenStream

namespace Grammar

open TokenStream

variable {α β : Type}

theorem pure_run (a : α) (s : TokenStream) : (pure a : Parser α) s = .ok (a, s) := rfl

/-- A sequence runs the first part, then the second on what is left. -/
theorem bind_run (p : Parser α) (f : α → Parser β) (s : TokenStream) :
    (p >>= f) s = match p s with
      | .ok (a, r) => f a r
      | .error e => .error e := by
  show (p s >>= fun ar => f ar.1 ar.2) = _
  cases p s <;> rfl

theorem bind_of_ok {p : Parser α} {f : α → Parser β} {s r : TokenStream} {a : α}
    (h : p s = .ok (a, r)) : (p >>= f) s = f a r := by
  rw [bind_run, h]

theorem unexpected_run (x : Expectation) (s : TokenStream) :
    (unexpected x : Parser α) s = .error (s.refusal x) := by
  obtain ⟨_ | ⟨t, ts⟩, _ | _⟩ := s <;> rfl

/-- Nothing comes after a failure. -/
@[simp] theorem unexpected_bind (x : Expectation) (f : α → Parser β) :
    (unexpected x >>= f) = unexpected x := by
  funext s
  rw [bind_run, unexpected_run, unexpected_run]

theorem settle_run {s : TokenStream} (h : s.Settled) : settle s = .ok ((), s) := by
  obtain ⟨_ | ⟨t, ts⟩, p | e⟩ := s
  · rfl
  · exact absurd rfl (h e)
  · rfl
  · rfl

theorem settle_broken (e : LexicalError) : settle ⟨[], .broken e⟩ = .error (.lexical e) := rfl

/-- A run that settles a stream fails with the stream's refusal, whatever is
expected. -/
theorem settle_cases (s : TokenStream) (x : Expectation) :
    s.Settled ∧ settle s = .ok ((), s) ∨ ∃ e, s = ⟨[], .broken e⟩ ∧ settle s = .error (s.refusal x) := by
  obtain ⟨_ | ⟨t, ts⟩, p | e⟩ := s
  · exact .inl ⟨settled_of_endOfInput, rfl⟩
  · exact .inr ⟨e, rfl, rfl⟩
  · exact .inl ⟨settled_of_endOfInput, rfl⟩
  · exact .inl ⟨settled_of_ne_nil (List.cons_ne_nil t ts), rfl⟩

theorem peek_run (test : Token.Kind → Bool) (s : TokenStream) :
    peek test s = .ok (s.next.any test, s) := by
  simp only [peek, next, Option.any_map]
  rfl

theorem atEnd_run (s : TokenStream) : atEnd s = .ok (s.tokens.isEmpty, s) := rfl

/-! ### Taking the token in front -/

theorem chooseToken_push {f : Token → Option β} {t : Token} {b : β} {s : TokenStream}
    (h : f t = some b) : chooseToken f (s.push [t]) = (do settle; return some b : Parser _) s := by
  simp [chooseToken, push, h]

theorem chooseToken_none {f : Token → Option β} {s : TokenStream}
    (h : ∀ t ∈ s.tokens.head?, f t = none) : chooseToken f s = .ok (none, s) := by
  obtain ⟨_ | ⟨t, ts⟩, ending⟩ := s
  · rfl
  · simp only [List.head?_cons, Option.mem_some_iff, forall_eq'] at h
    simp only [chooseToken, h]
    rfl

/-- A token that is wanted is taken, if the stream behind it is settled. -/
theorem chooseToken_of_settled {f : Token → Option β} {t : Token} {b : β} {s : TokenStream}
    (h : f t = some b) (hs : s.Settled) : chooseToken f (s.push [t]) = .ok (some b, s) := by
  rw [chooseToken_push h, bind_of_ok (settle_run hs), pure_run]

/-- The three ways of a choice: the token in front is wanted and taken, or it
is wanted and a lexical error is behind it, or it is left. -/
theorem chooseToken_cases (f : Token → Option β) (s : TokenStream) :
    (∃ t b r, s = r.push [t] ∧ f t = some b ∧ chooseToken f s = .ok (some b, r)) ∨
    (∃ t e, s = push [t] ⟨[], .broken e⟩ ∧ chooseToken f s = .error (.lexical e)) ∨
    ((∀ t ∈ s.tokens.head?, f t = none) ∧ chooseToken f s = .ok (none, s)) := by
  by_cases hnone : ∀ t ∈ s.tokens.head?, f t = none
  · exact .inr (.inr ⟨hnone, chooseToken_none hnone⟩)
  rcases s.eq_push_or_tokens_eq_nil with ⟨t, r, rfl⟩ | hnil
  · obtain ⟨b, hb⟩ : ∃ b, f t = some b := by
      simpa [Option.ne_none_iff_exists'] using hnone
    rcases settle_cases r .statement with ⟨hr, -⟩ | ⟨e, rfl, -⟩
    · exact .inl ⟨t, b, r, rfl, hb, chooseToken_of_settled hb hr⟩
    · exact .inr (.inl ⟨t, e, rfl, chooseToken_push hb⟩)
  · simp [hnil] at hnone

theorem choose_push {f : Token.Kind → Option β} {t : Token} {b : β} {s : TokenStream}
    (h : f t.kind = some b) (hs : s.Settled) : choose f (s.push [t]) = .ok (some b, s) :=
  chooseToken_of_settled h hs

theorem choose_none {f : Token.Kind → Option β} {s : TokenStream}
    (h : ∀ k ∈ s.next, f k = none) : choose f s = .ok (none, s) :=
  chooseToken_none fun t ht => h t.kind (by simp_all [next])

theorem accept?_push {k : Token.Kind} {t : Token} {s : TokenStream} (h : t.kind = k)
    (hs : s.Settled) : accept? k (s.push [t]) = .ok (some t, s) :=
  chooseToken_of_settled (by simp [h]) hs

theorem accept?_none {k : Token.Kind} {s : TokenStream} (h : s.next ≠ some k) :
    accept? k s = .ok (none, s) :=
  chooseToken_none fun t ht => by
    have : s.next = some t.kind := by simp_all [next]
    simp_all

theorem accept_push {k : Token.Kind} {t : Token} {s : TokenStream} (h : t.kind = k)
    (hs : s.Settled) : accept k (s.push [t]) = .ok (true, s) :=
  bind_of_ok (accept?_push h hs)

theorem accept_none {k : Token.Kind} {s : TokenStream} (h : s.next ≠ some k) :
    accept k s = .ok (false, s) :=
  bind_of_ok (accept?_none h)

theorem accept_then {k : Token.Kind} {p q : Parser α} {t : Token} {s : TokenStream} (h : t.kind = k)
    (hs : s.Settled) : (do if ← accept k then p else q : Parser α) (s.push [t]) = p s :=
  bind_of_ok (accept_push h hs)

theorem accept_else {k : Token.Kind} {p q : Parser α} {s : TokenStream} (h : s.next ≠ some k) :
    (do if ← accept k then p else q : Parser α) s = q s :=
  bind_of_ok (accept_none h)

theorem expect_push {k : Token.Kind} {place : Place} {t : Token} {s : TokenStream}
    (h : t.kind = k) (hs : s.Settled) : expect k place (s.push [t]) = .ok (t, s) :=
  bind_of_ok (accept?_push h hs)

theorem connective_eq (kind : Token.Kind) (op : Connective) :
    connective kind op = choose fun k => if k = kind then some op else none := by
  funext s
  by_cases hn : s.next = some kind
  · rcases s.eq_push_or_tokens_eq_nil with ⟨t, r, rfl⟩ | hnil
    · have hk : t.kind = kind := by simpa using hn
      have hop : (if t.kind = kind then some op else none) = some op := if_pos hk
      rcases settle_cases r .statement with ⟨hr, -⟩ | ⟨e, rfl, -⟩
      · rw [connective, bind_of_ok (accept_push hk hr), choose_push hop hr]
        rfl
      · rw [connective, bind_run, accept, bind_run, accept?, chooseToken_push (if_pos hk),
          choose, chooseToken_push hop]
        rfl
    · simp [next, hnil] at hn
  · rw [connective, bind_of_ok (accept_none hn), choose_none]
    · rfl
    · intro k hk
      exact if_neg (by rintro rfl; exact hn hk)

/-! ### Repetition -/

/-- A part that gives no tokens back. -/
def Forward (p : Parser α) : Prop :=
  ∀ ⦃s r a⦄, p s = .ok (a, r) → r.tokens.length ≤ s.tokens.length

theorem forward_pure (a : α) : Forward (pure a : Parser α) := by
  rintro s r b ⟨⟩
  exact Nat.le_refl _

theorem Forward.bind {p : Parser α} {f : α → Parser β} (hp : Forward p) (hf : ∀ a, Forward (f a)) :
    Forward (p >>= f) := by
  intro s r b h
  rw [bind_run] at h
  cases hrun : p s with
  | error e => simp [hrun] at h
  | ok ar =>
    rw [hrun] at h
    exact Nat.le_trans (hf _ h) (hp hrun)

/-- A step that can be repeated: it yields nothing at the end of the stream,
and it takes a token whenever it yields something. -/
structure Repeatable (step : Parser (Option α)) : Prop where
  idle : ∀ ending, step ⟨[], ending⟩ = .ok (none, ⟨[], ending⟩)
  takes : ∀ {s r a}, step s = .ok (some a, r) → r.tokens.length < s.tokens.length

theorem repeatable_choose {f : Token.Kind → Option β} {q : β → Parser (Option α)}
    (hq : ∀ b, Forward (q b)) :
    Repeatable (do match ← choose f with | some b => q b | none => return none) where
  idle ending := bind_of_ok (chooseToken_none (by simp))
  takes {s r a} h := by
    obtain ⟨t, b, s', rfl, -, hrun⟩ | ⟨t, e, rfl, hrun⟩ | ⟨-, hrun⟩ :=
      chooseToken_cases (fun t => f t.kind) s
    · rw [choose, bind_of_ok hrun] at h
      exact Nat.lt_succ_of_le (hq b h)
    · rw [choose, bind_run, hrun] at h
      simp at h
    · rw [choose, bind_of_ok hrun] at h
      simp [pure_run] at h

theorem repeatable_accept {k : Token.Kind} {q : Parser (Option α)} (hq : Forward q) :
    Repeatable (do if ← accept k then q else return none) where
  idle ending := bind_of_ok (accept_none (by simp [next]))
  takes {s r a} h := by
    rw [accept, bind_assoc] at h
    obtain ⟨t, b, s', rfl, -, hrun⟩ | ⟨t, e, rfl, hrun⟩ | ⟨-, hrun⟩ :=
      chooseToken_cases (fun t => if t.kind = k then some t else none) s
    · rw [accept?, bind_of_ok hrun] at h
      exact Nat.lt_succ_of_le (hq h)
    · rw [accept?, bind_run, hrun] at h
      simp at h
    · rw [accept?, bind_of_ok hrun] at h
      simp [bind_run, pure_run] at h

/-- The step from one item of a list to the next. -/
abbrev nextItem (separator : Token.Kind) (item : Parser α) : Parser (Option α) := do
  if ← accept separator then return some (← item) else return none

theorem repeatable_nextItem {separator : Token.Kind} {item : Parser α} (h : Forward item) :
    Repeatable (nextItem separator item) :=
  repeatable_accept (h.bind fun _ => forward_pure _)

/-- The step from one operand of a chain to the next. -/
abbrev nextOperand {ω : Type} (operator : Parser (Option ω)) (operand : Parser α) :
    Parser (Option (ω × α)) := do
  match ← operator with
  | some op => return some (op, ← operand)
  | none => return none

theorem repeatable_nextOperand {ω : Type} {f : Token.Kind → Option ω} {operand : Parser α}
    (h : Forward operand) : Repeatable (nextOperand (choose f) operand) :=
  repeatable_choose fun _ => h.bind fun _ => forward_pure _

variable {step : Parser (Option α)}

/-- More rounds than there are tokens make no difference. -/
theorem collectWithin_eq (h : Repeatable step) : ∀ (rounds rounds' : List Token) (s : TokenStream),
    s.tokens.length ≤ rounds.length → s.tokens.length ≤ rounds'.length →
    collectWithin step rounds s = collectWithin step rounds' s
  | [], [], _, _, _ => rfl
  | [], t :: rounds', ⟨ts, ending⟩, hs, _ => by
    obtain rfl : ts = [] := by simpa using hs
    simp only [collectWithin, bind_run, h.idle]
  | t :: rounds, [], ⟨ts, ending⟩, _, hs => by
    obtain rfl : ts = [] := by simpa using hs
    simp only [collectWithin, bind_run, h.idle]
  | t :: rounds, t' :: rounds', s, hs, hs' => by
    simp only [collectWithin, bind_run]
    cases hstep : step s with
    | error e => rfl
    | ok ar =>
      obtain ⟨_ | a, r⟩ := ar
      · rfl
      · have hr := h.takes hstep
        simp only [List.length_cons] at hs hs'
        simp only [bind_run, collectWithin_eq h rounds rounds' r (by omega) (by omega)]

/-- Repetition is one step and, if that yields something, repetition. -/
theorem collect_eq (h : Repeatable step) (s : TokenStream) :
    collect step s = match step s with
      | .ok (some a, r) => (collect step >>= fun as => pure (a :: as)) r
      | .ok (none, r) => .ok ([], r)
      | .error e => .error e := by
  obtain ⟨_ | ⟨t, ts⟩, ending⟩ := s
  · simp only [h.idle]
    rfl
  · simp only [collect, collectWithin, bind_run]
    cases hstep : step ⟨t :: ts, ending⟩ with
    | error e => rfl
    | ok ar =>
      obtain ⟨_ | a, r⟩ := ar
      · rfl
      · have hr := h.takes hstep
        simp only [List.length_cons] at hr
        simp only [bind_run, collectWithin_eq h ts r.tokens r (by omega) (Nat.le_refl _)]

theorem collect_none (h : Repeatable step) {s r : TokenStream} (hstep : step s = .ok (none, r)) :
    collect step s = .ok ([], r) := by
  rw [collect_eq h, hstep]

theorem collect_some (h : Repeatable step) {s r r' : TokenStream} {a : α} {as : List α}
    (hstep : step s = .ok (some a, r)) (hrest : collect step r = .ok (as, r')) :
    collect step s = .ok (a :: as, r') := by
  rw [collect_eq h, hstep]
  exact bind_of_ok hrest

end Grammar
end SyntaxGraph
