/-
# Items asked for one by one

A parser never has the whole stream. It has the token in front and asks for the next item
when it takes that token. Taking fails if the item is an error, and at the end of the input
it changes nothing: no item is asked for there.

What is read from a feed is judged in two ways. It proceeds (`Pull.Proceeds`) if all it does
is to take proper tokens from the front, and at least so many where it answers. And it
follows a parser (`Pull.Follows`) if it answers what the parser answers on the stream that
the feed stands for.

Key definitions: `Feed`, `Feed.advance`, `Feed.Leads`, `Feed.Fails`, `Pull`,
`Pull.Proceeds`, `Pull.Follows`.
Key theorems: `Feed.advance_cases`, `Feed.Leads.stream_eq`, `Pull.Proceeds.bind`,
`Pull.Follows.bind`, `Pull.Proceeds.takeFront`.
-/
import SyntaxGraph.Proofs.Action
import SyntaxGraph.Proofs.Grammar.Items

namespace SyntaxGraph

open TokenStream

/-- A parser between two items: the token in front, the items that have not been asked for,
and how often it has asked. -/
structure Feed where
  front : Token
  waiting : List Item
  asked : Nat

namespace Feed

/-- A feed that has not been asked for an item; till then the end of the input is in front. -/
def before (items : List Item) : Feed :=
  ⟨Token.endOfInput .start, items, 0⟩

/-- What is in front, and what will come if it is asked for, as a stream. -/
def stream (f : Feed) : TokenStream :=
  .ofItems (.ok f.front :: f.waiting)

/-- The token in front is taken, and the next item is asked for. At the end of the input
that token is given again. -/
def advance (f : Feed) : Except ParseError Token × Feed :=
  if f.front.kind = .eof then (.ok f.front, f)
  else match f.waiting with
    | [] => (.ok f.front, ⟨Token.endOfInput f.front.position, [], f.asked + 1⟩)
    | .ok t :: rest => (.ok f.front, ⟨t, rest, f.asked + 1⟩)
    | .error e :: rest => (.error (.lexical e), ⟨f.front, rest, f.asked + 1⟩)

/-- The error that blames the token in front. -/
def refusal (f : Feed) (expected : Expectation) : ParseError :=
  .grammar ⟨if f.front.kind = .eof then none else some f.front, expected, f.front.position⟩

variable {f f' f'' : Feed} {ts us : List Token}

theorem stream_of_eof (h : f.front.kind = .eof) : f.stream = ⟨[], .endOfInput f.front.position⟩ :=
  ofItemsAfter_eof h .start f.waiting

theorem stream_of_token (h : f.front.kind ≠ .eof) :
    f.stream = (ofItemsAfter f.front.position f.waiting).push [f.front] :=
  ofItemsAfter_token h .start f.waiting

theorem tokens_eq_nil_iff : f.stream.tokens = [] ↔ f.front.kind = .eof := by
  by_cases h : f.front.kind = .eof
  · simp [stream_of_eof h, h]
  · simp [stream_of_token h, h]

/-- No lexical error is in front of a feed: what is there is a token. -/
theorem settled (f : Feed) : f.stream.Settled := by
  by_cases h : f.front.kind = .eof
  · rw [stream_of_eof h]
    exact settled_of_endOfInput
  · exact settled_of_ne_nil (mt tokens_eq_nil_iff.mp h)

theorem refusal_stream (f : Feed) (x : Expectation) : f.stream.refusal x = f.refusal x := by
  by_cases h : f.front.kind = .eof
  · rw [stream_of_eof h, refusal, if_pos h]
    rfl
  · rw [stream_of_token h, refusal, if_neg h]
    rfl

/-- Taking a proper token asks for one item. It leaves what was behind the token, unless
a lexical error is there. -/
theorem advance_cases (h : f.front.kind ≠ .eof) :
    (∃ f', f.advance = (.ok f.front, f') ∧ f.stream = f'.stream.push [f.front] ∧
      f'.waiting = f.waiting.tail ∧ f'.asked = f.asked + 1) ∨
    ∃ e f', f.advance = (.error (.lexical e), f') ∧ f.stream = push [f.front] ⟨[], .broken e⟩ ∧
      f'.waiting = f.waiting.tail ∧ f'.asked = f.asked + 1 := by
  obtain ⟨t, waiting, asked⟩ := f
  have hstream := stream_of_token h
  cases waiting with
  | nil =>
    refine .inl ⟨_, if_neg h, ?_, rfl, rfl⟩
    rw [hstream, stream_of_eof rfl]
    rfl
  | cons x rest =>
    cases x with
    | ok u => exact .inl ⟨_, if_neg h, hstream, rfl, rfl⟩
    | error e => exact .inr ⟨e, _, if_neg h, hstream, rfl, rfl⟩

theorem advance_of_ok (h : f.front.kind ≠ .eof) (hadvance : f.advance = (.ok f.front, f')) :
    f.stream = f'.stream.push [f.front] ∧ f'.waiting = f.waiting.tail ∧
      f'.asked = f.asked + 1 := by
  obtain ⟨f'', hok, hspec⟩ | ⟨e, f'', herror, -⟩ := advance_cases h
  · obtain rfl := (Prod.mk.inj (hadvance.symm.trans hok)).2
    exact hspec
  · cases hadvance.symm.trans herror

theorem advance_of_error {e : LexicalError} (h : f.front.kind ≠ .eof)
    (hadvance : f.advance = (.error (.lexical e), f')) :
    f.stream = push [f.front] ⟨[], .broken e⟩ ∧ f'.waiting = f.waiting.tail ∧
      f'.asked = f.asked + 1 := by
  obtain ⟨f'', hok, -⟩ | ⟨e', f'', herror, hspec⟩ := advance_cases h
  · cases hadvance.symm.trans hok
  · cases hadvance.symm.trans herror
    exact hspec

/-! ### Ways through a feed -/

/-- The one feed comes to be the other by taking the given tokens, all of them proper. -/
inductive Leads : Feed → List Token → Feed → Prop where
  | refl (f : Feed) : Leads f [] f
  | take {f f' f'' : Feed} {ts : List Token} : f.front.kind ≠ .eof →
      f.advance = (.ok f.front, f') → Leads f' ts f'' → Leads f (f.front :: ts) f''

/-- The one feed comes to be the other by taking proper tokens, the last of which may be in
front of a lexical error. -/
inductive Fails : Feed → Feed → Prop where
  | behind {f f' : Feed} {ts : List Token} : Leads f ts f' → Fails f f'
  | broken {f f' f'' : Feed} {ts : List Token} {e : LexicalError} : Leads f ts f' →
      f'.front.kind ≠ .eof → f'.advance = (.error (.lexical e), f'') → Fails f f''

theorem leads_singleton (h : f.front.kind ≠ .eof) (hadvance : f.advance = (.ok f.front, f')) :
    f.Leads [f.front] f' :=
  .take h hadvance (.refl f')

theorem Leads.trans (h : f.Leads ts f') (h' : f'.Leads us f'') : f.Leads (ts ++ us) f'' := by
  induction h with
  | refl => exact h'
  | take hfront hadvance _ ih => exact .take hfront hadvance (ih h')

theorem Fails.of_leads (h : f.Leads ts f') (h' : f'.Fails f'') : f.Fails f'' := by
  cases h' with
  | behind hrest => exact .behind (h.trans hrest)
  | broken hrest hfront hadvance => exact .broken (h.trans hrest) hfront hadvance

theorem Leads.eq_of_eof (h : f.Leads ts f') (hfront : f.front.kind = .eof) : ts = [] ∧ f' = f := by
  cases h with
  | refl => exact ⟨rfl, rfl⟩
  | take hne => exact absurd hfront hne

theorem Fails.eq_of_eof (h : f.Fails f') (hfront : f.front.kind = .eof) : f' = f := by
  cases h with
  | behind hlead => exact (hlead.eq_of_eof hfront).2
  | broken hlead hne =>
    obtain ⟨-, rfl⟩ := hlead.eq_of_eof hfront
    exact absurd hfront hne

/-- The tokens that are taken are no ends of the input. -/
theorem Leads.kind_ne_eof (h : f.Leads ts f') : ∀ t ∈ ts, t.kind ≠ .eof := by
  induction h with
  | refl => exact fun t ht => absurd ht List.not_mem_nil
  | take hfront _ _ ih => exact List.forall_mem_cons.mpr ⟨hfront, ih⟩

/-- The tokens that are taken were in front of the stream. -/
theorem Leads.stream_eq (h : f.Leads ts f') : f.stream = f'.stream.push ts := by
  induction h with
  | refl => rfl
  | take hfront hadvance _ ih =>
    rw [(advance_of_ok hfront hadvance).1, ih, push_push, List.singleton_append]

theorem Leads.asked_eq (h : f.Leads ts f') : f'.asked = f.asked + ts.length := by
  induction h with
  | refl => rfl
  | take hfront hadvance _ ih =>
    obtain ⟨-, -, hasked⟩ := advance_of_ok hfront hadvance
    rw [ih, hasked, List.length_cons, Nat.add_assoc, Nat.add_comm 1]

/-- The items that wait are those behind the ones that have been asked for. -/
def InOrder (items : List Item) (f : Feed) : Prop :=
  f.waiting = items.drop f.asked

theorem InOrder.advance {items : List Item} (h : f.InOrder items)
    (hwaiting : f'.waiting = f.waiting.tail) (hasked : f'.asked = f.asked + 1) :
    f'.InOrder items := by
  rw [InOrder, hwaiting, h, hasked, List.tail_drop]

theorem Leads.inOrder {items : List Item} (h : f.Leads ts f') (hf : f.InOrder items) :
    f'.InOrder items := by
  induction h with
  | refl => exact hf
  | take hfront hadvance _ ih =>
    obtain ⟨-, hwaiting, hasked⟩ := advance_of_ok hfront hadvance
    exact ih (hf.advance hwaiting hasked)

/-- However a reading ends, the items were asked for in order, and no further than the
stream of the feed goes. -/
theorem Fails.inOrder {items : List Item} (h : f.Fails f') (hf : f.InOrder items) :
    f'.InOrder items ∧ f'.asked ≤ f.asked + f.stream.tokens.length := by
  cases h with
  | behind hlead =>
    refine ⟨hlead.inOrder hf, ?_⟩
    rw [hlead.asked_eq, hlead.stream_eq, tokens_push, List.length_append]
    omega
  | broken hlead hfront hadvance =>
    obtain ⟨hstream, hwaiting, hasked⟩ := advance_of_error hfront hadvance
    refine ⟨(hlead.inOrder hf).advance hwaiting hasked, ?_⟩
    rw [hasked, hlead.asked_eq, hlead.stream_eq, hstream]
    simp only [tokens_push, List.length_append, List.length_cons, List.length_nil]
    omega

/-- What comes out of a reading, and the feed then, show that nothing was done to the feed
`f` but to take proper tokens: at least `least a` where `a` comes out. -/
def Passes {α : Type} (least : α → Nat) (f : Feed) : Except ParseError α × Feed → Prop
  | (.ok a, f') => ∃ ts, least a ≤ ts.length ∧ f.Leads ts f'
  | (.error _, f') => f.Fails f'

theorem Passes.fails {α : Type} {least : α → Nat} {out : Except ParseError α × Feed}
    (h : f.Passes least out) : f.Fails out.2 := by
  obtain ⟨e | a, f'⟩ := out
  · exact h
  · obtain ⟨ts, -, hlead⟩ := h
    exact .behind hlead

end Feed

/-! ### Reading from a feed -/

/-- Reading from a feed, which is kept where the reading fails. -/
abbrev Pull (α : Type) :=
  Action ParseError Feed α

namespace Pull

open SyntaxGraph.Action

variable {α β : Type}

/-- The token in front. -/
def front : Pull Token := fun f => (.ok f.front, f)

/-- Takes the token in front. -/
def advance : Pull Token := Feed.advance

/-- Asks for the first item. -/
def start : Pull Unit := fun f =>
  match f.waiting with
  | [] => (.ok (), ⟨f.front, [], f.asked + 1⟩)
  | .ok t :: rest => (.ok (), ⟨t, rest, f.asked + 1⟩)
  | .error e :: rest => (.error (.lexical e), ⟨f.front, rest, f.asked + 1⟩)

/-- Fails at the token in front. -/
def refuse (expected : Expectation) : Pull α := fun f => (.error (f.refusal expected), f)

/-- Takes the token in front if `g` has an entry for it. -/
def takeFront (g : Token → Option α) : Pull (Option α) := do
  match g (← front) with
  | some a => do
    let _ ← advance
    return some a
  | none => return none

@[simp] theorem exec_front (f : Feed) : exec front f = (.ok f.front, f) := rfl

@[simp] theorem exec_advance (f : Feed) : exec advance f = f.advance := rfl

theorem exec_takeFront_some {g : Token → Option α} {f : Feed} {a : α} (h : g f.front = some a) :
    exec (takeFront g) f = match f.advance with
      | (.ok _, f') => (.ok (some a), f')
      | (.error e, f') => (.error e, f') := by
  rw [takeFront, exec_bind_of_ok (exec_front f)]
  simp only [h, exec_bind, exec_advance]
  rcases f.advance with ⟨_ | _, f'⟩ <;> rfl

theorem exec_takeFront_none {g : Token → Option α} {f : Feed} (h : g f.front = none) :
    exec (takeFront g) f = (.ok none, f) := by
  rw [takeFront, exec_bind_of_ok (exec_front f), h]
  rfl

theorem exec_start (items : List Item) :
    (∃ f, start.exec (.before items) = (.ok (), f) ∧ f.stream = .ofItems items ∧
      f.InOrder items ∧ f.asked = 1) ∨
    ∃ e f, start.exec (.before items) = (.error (.lexical e), f) ∧
      ofItems items = ⟨[], .broken e⟩ ∧ f.InOrder items ∧ f.asked = 1 := by
  cases items with
  | nil => exact .inl ⟨_, rfl, Feed.stream_of_eof rfl, rfl, rfl⟩
  | cons x rest =>
    cases x with
    | ok t => exact .inl ⟨_, rfl, rfl, rfl, rfl⟩
    | error e => exact .inr ⟨e, _, rfl, rfl, rfl, rfl⟩

/-! ### Proceeding -/

/-- The reading does nothing to a feed but to take proper tokens: at least `least a` if it
answers `a`. -/
def Proceeds (least : α → Nat) (p : Pull α) : Prop :=
  ∀ f : Feed, f.Passes least (p.exec f)

theorem proceeds_pure {least : α → Nat} {a : α} (h : least a = 0) : Proceeds least (pure a) :=
  fun f => ⟨[], Nat.le_of_eq h, .refl f⟩

theorem proceeds_throw {least : α → Nat} (e : ParseError) : Proceeds least (throw e : Pull α) :=
  fun f => .behind (.refl f)

theorem proceeds_refuse {least : α → Nat} (x : Expectation) : Proceeds least (refuse x : Pull α) :=
  fun f => .behind (.refl f)

/-- What the first part has taken need not be taken by the second. -/
theorem Proceeds.bind {least : α → Nat} {least' : β → Nat} {p : Pull α} {q : α → Pull β}
    (hp : Proceeds least p) (hq : ∀ a, Proceeds (fun b => least' b - least a) (q a)) :
    Proceeds least' (p >>= q) := by
  intro f
  have hf := hp f
  rw [exec_bind]
  generalize p.exec f = out at hf ⊢
  obtain ⟨e | a, f'⟩ := out
  · exact hf
  · obtain ⟨ts, hts, hlead⟩ := hf
    have hrest := hq a f'
    show f.Passes least' (exec (q a) f')
    generalize exec (q a) f' = out at hrest ⊢
    obtain ⟨e | b, f''⟩ := out
    · exact .of_leads hlead hrest
    · obtain ⟨us, hus, hlead'⟩ := hrest
      refine ⟨ts ++ us, ?_, hlead.trans hlead'⟩
      have hus : least' b - least a ≤ us.length := hus
      rw [List.length_append]
      omega

/-- A choice takes a token if it says so, where it does not choose the end of the input. -/
theorem Proceeds.takeFront {g : Token → Option α} (hg : ∀ t, t.kind = .eof → g t = none) :
    Proceeds (fun o => if o.isSome then 1 else 0) (takeFront g) := by
  intro f
  cases ho : g f.front with
  | none =>
    rw [exec_takeFront_none ho]
    exact ⟨[], Nat.le_refl 0, .refl f⟩
  | some b =>
    have hne : f.front.kind ≠ .eof := fun heof => by
      rw [hg _ heof] at ho
      cases ho
    rw [exec_takeFront_some ho]
    obtain ⟨f', hok, -⟩ | ⟨e, f', herror, -⟩ := Feed.advance_cases hne
    · rw [hok]
      exact ⟨[f.front], Nat.le_refl 1, Feed.leads_singleton hne hok⟩
    · rw [herror]
      exact .broken (.refl f) hne herror

/-- At the end of the input nothing is taken, whatever comes out. -/
theorem Proceeds.snd_exec_of_eof {least : α → Nat} {p : Pull α} (h : Proceeds least p) {f : Feed}
    (hfront : f.front.kind = .eof) : (p.exec f).2 = f :=
  (h f).fails.eq_of_eof hfront

/-! ### Following a parser -/

/-- The reading answers what the parser does on the stream of the feed, and leaves the stream
that the parser leaves. -/
def Follows (p : Pull α) (q : Parser α) : Prop :=
  ∀ f, q f.stream = (p.exec f).1.map fun a => (a, (p.exec f).2.stream)

theorem follows_pure (a : α) : Follows (pure a) (pure a) :=
  fun _ => rfl

theorem follows_refuse (x : Expectation) : Follows (refuse x : Pull α) (Grammar.unexpected x) := by
  intro f
  rw [Grammar.unexpected_run, f.refusal_stream]
  rfl

theorem Follows.bind {p : Pull α} {p' : Parser α} {q : α → Pull β} {q' : α → Parser β}
    (hp : Follows p p') (hq : ∀ a, Follows (q a) (q' a)) : Follows (p >>= q) (p' >>= q') := by
  intro f
  rw [Grammar.bind_run, hp f, exec_bind]
  cases hrun : p.exec f with
  | mk outcome f' =>
    cases outcome with
    | ok a => exact hq a f'
    | error e => rfl

theorem Follows.takeFront {g : Token → Option α} (hg : ∀ t, t.kind = .eof → g t = none) :
    Follows (takeFront g) (Grammar.chooseToken g) := by
  intro f
  by_cases hne : f.front.kind = .eof
  · rw [exec_takeFront_none (hg _ hne), Grammar.chooseToken_none]
    · rfl
    · simp [Feed.stream_of_eof hne]
  cases ho : g f.front with
  | none =>
    rw [exec_takeFront_none ho, Grammar.chooseToken_none]
    · rfl
    · simp [Feed.stream_of_token hne, ho]
  | some a =>
    rw [exec_takeFront_some ho]
    obtain ⟨f', hok, hstream, -⟩ | ⟨e, f', herror, hstream, -⟩ := Feed.advance_cases hne
    · rw [hok, hstream, Grammar.chooseToken_of_settled ho f'.settled]
      rfl
    · rw [herror, hstream, Grammar.chooseToken_push ho]
      rfl

end Pull
end SyntaxGraph
