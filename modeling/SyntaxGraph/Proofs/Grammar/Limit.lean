/-
# What the limit of nesting takes away

A grammar with a higher limit reads as the one with a lower limit does, up to the
token where the lower limit is refused. The scripts of the rules show it: the levels
that are left are asked for in one place only, at a nested call. Where there are none,
the grammar with the lower limit fails at the token in front. The other one goes on
from that token, and so it succeeds or fails there or behind it (`Beyond`). A sequence
that has once gone on like that cannot come back (`Outlasts.bind`).

Key definitions: `Beyond`, `Onward`, `Outlasts`.
Key theorems: `Script.run_outlasts`, `Call.parser_outlasts`, `parse_of_limit_le`.
-/
import SyntaxGraph.Proofs.Grammar.ScriptRun
import SyntaxGraph.Proofs.Grammar.StreamOrder

namespace SyntaxGraph
namespace Grammar

open TokenStream

variable {α β : Type}

/-! ### Readings that come to a certain point -/

/-- A reading with this outcome has come to the stream `r`, or beyond it: what it leaves, or
the token that it fails at, is in `r`. -/
def Beyond (r : TokenStream) : Except ParseError (α × TokenStream) → Prop
  | .ok (_, r') => ∃ us, r = r'.push us
  | .error e => ∃ (us : List Token) (r' : TokenStream) (x : Expectation),
    r = r'.push us ∧ e = r'.refusal x

theorem Beyond.push {r : TokenStream} {o : Except ParseError (α × TokenStream)} (h : Beyond r o)
    (ts : List Token) : Beyond (r.push ts) o := by
  cases o with
  | ok ar =>
    obtain ⟨us, rfl⟩ := h
    exact ⟨ts ++ us, push_push ts us _⟩
  | error e =>
    obtain ⟨us, r', x, rfl, rfl⟩ := h
    exact ⟨ts ++ us, r', x, push_push ts us _, rfl⟩

/-- The parser moves onward from the stream that it is given. -/
def Onward (p : Parser α) : Prop :=
  ∀ s, Beyond s (p s)

/-- A sequence whose first part comes to a stream comes there too. -/
theorem Onward.beyond_bind {f : α → Parser β} (hf : ∀ a, Onward (f a)) {p : Parser α}
    {r s : TokenStream} (h : Beyond r (p s)) : Beyond r ((p >>= f) s) := by
  rw [bind_run]
  cases hrun : p s with
  | error e =>
    rw [hrun] at h
    exact h
  | ok ar =>
    rw [hrun] at h
    obtain ⟨us, rfl⟩ := h
    exact (hf ar.1 ar.2).push us

theorem Onward.bind {p : Parser α} {f : α → Parser β} (hp : Onward p) (hf : ∀ a, Onward (f a)) :
    Onward (p >>= f) :=
  fun s => Onward.beyond_bind hf (hp s)

theorem onward_pure (a : α) : Onward (pure a : Parser α) :=
  fun _ => ⟨[], rfl⟩

theorem onward_unexpected (x : Expectation) : Onward (unexpected x : Parser α) := by
  intro s
  rw [unexpected_run]
  exact ⟨[], s, x, rfl, rfl⟩

theorem onward_chooseToken (f : Token → Option α) : Onward (chooseToken f) := by
  intro s
  obtain ⟨t, b, r, rfl, -, hrun⟩ | ⟨t, e, rfl, hrun⟩ | ⟨-, hrun⟩ := chooseToken_cases f s
  · rw [hrun]
    exact ⟨[t], rfl⟩
  · rw [hrun]
    exact ⟨[t], ⟨[], .broken e⟩, .statement, rfl, rfl⟩
  · rw [hrun]
    exact ⟨[], rfl⟩

/-- A literal is taken, and if it has no value it is the token that is blamed. -/
theorem beyond_literal_bind {kind : Token.Kind} {value : Token → Parser Expr} {x : Expectation}
    {other : Parser (Option Expr)}
    (hvalue : ∀ t r, (∃ e, value t r = .ok (e, r)) ∨ value t r = .error ((r.push [t]).refusal x))
    (hother : Onward other) : Onward (do
      if let some t ← accept? kind then return some (← value t) else other) := by
  intro s
  rw [bind_run, accept?]
  obtain ⟨t, b, r, rfl, hf, hrun⟩ | ⟨t, e, rfl, hrun⟩ | ⟨-, hrun⟩ :=
    chooseToken_cases (fun t => if t.kind = kind then some t else none) s
  · obtain rfl : t = b := by
      split at hf
      · exact Option.some.inj hf
      · cases hf
    rw [hrun]
    show Beyond _ ((value t >>= fun e => pure (some e)) r)
    rw [bind_run]
    obtain ⟨e, he⟩ | he := hvalue t r
    · rw [he]
      exact ⟨[t], rfl⟩
    · rw [he]
      exact ⟨[], r.push [t], x, rfl, rfl⟩
  · rw [hrun]
    exact ⟨[t], ⟨[], .broken e⟩, .statement, rfl, rfl⟩
  · rw [hrun]
    exact hother s

theorem onward_literal : Onward literal := by
  refine beyond_literal_bind (x := .integer) (fun t r => ?_)
    (beyond_literal_bind (x := .float) (fun t r => ?_) (onward_pure none))
  · rw [integer]
    cases Decimal.readInt t.text.toList with
    | some i => exact .inl ⟨_, rfl⟩
    | none => exact .inr rfl
  · rw [float]
    cases Decimal.readFloat t.text.toList with
    | some x => exact .inl ⟨_, rfl⟩
    | none => exact .inr rfl

/-- Each step of the grammar moves onward. -/
theorem Step.onward_run (s : Step α) : Onward s.run := by
  cases s with
  | peek test => exact fun s => ⟨[], rfl⟩
  | choose f => exact onward_chooseToken _
  | accept kind => exact (onward_chooseToken _).bind fun _ => onward_pure _
  | name => exact onward_chooseToken _
  | literal => exact onward_literal
  | expect kind place =>
    refine (onward_chooseToken _).bind fun o => ?_
    cases o with
    | some t => exact onward_pure t
    | none => exact onward_unexpected _
  | refuse expected => exact onward_unexpected expected
  | settle =>
    intro s
    rw [Step.run]
    obtain ⟨-, hrun⟩ | ⟨e, -, hrun⟩ := settle_cases s .statement
    · rw [hrun]
      exact ⟨[], rfl⟩
    · rw [hrun]
      exact ⟨[], s, .statement, rfl, rfl⟩
  | atEnd => exact fun s => ⟨[], rfl⟩
  | atHand => exact fun s => ⟨[], rfl⟩

/-- A script moves onward if its calls do. -/
theorem Script.onward_run {call : (c : Call) → Parser c.target.Result} {script : Script α}
    (h : script.Uses fun c => Onward (call c)) : Onward (script.run call) := by
  induction script with
  | done a => exact onward_pure a
  | step s next ih => exact s.onward_run.bind fun b => ih b (h b)
  | call c next ih => exact h.1.bind fun b => ih b (h.2 b)

/-- Every part of the grammar moves onward. -/
theorem Call.onward_parser {limit n : Nat} (c : Call) (h : c.Fits limit n) :
    Onward (c.parser limit n) := by
  refine Call.induction (P := fun n c => c.Fits limit n → Onward (c.parser limit n))
    ?_ ?_ ?_ n c h
  · intro n r ih hr
    rw [Call.parser_rule, ← Script.run_ofRule r fun houter => (hr houter).2]
    exact Script.onward_run
      ((Script.uses_ofRule r).mono fun c hc => ih c hc (hr.of_mem_calls hc))
  · exact fun r _ => onward_unexpected _
  · exact fun n r ih hr => ih hr.opened

/-! ### More levels -/

/-- The parser `q` does what `p` does, except where `p` expects `x` at the stream `r`: there
`q` comes to `r` or beyond it. -/
def Outlasts (x : Expectation) (q p : Parser α) : Prop :=
  ∀ s, q s = p s ∨ ∃ ts r, s = r.push ts ∧ p s = .error (r.refusal x) ∧ Beyond r (q s)

variable {x : Expectation} {p q : Parser α}

theorem Outlasts.refl (x : Expectation) (p : Parser α) : Outlasts x p p :=
  fun _ => .inl rfl

/-- Every parser that moves onward outlasts a refusal. -/
theorem Onward.outlasts_unexpected (h : Onward q) : Outlasts x q (unexpected x) :=
  fun s => .inr ⟨[], s, rfl, unexpected_run x s, h s⟩

theorem Outlasts.bind {f g : α → Parser β} (hq : Onward q) (h : Outlasts x q p)
    (hg : ∀ a, Onward (g a)) (hgf : ∀ a, Outlasts x (g a) (f a)) :
    Outlasts x (q >>= g) (p >>= f) := by
  intro s
  obtain heq | ⟨ts, r, rfl, hrefused, hbeyond⟩ := h s
  · have hs := hq s
    rw [bind_run, bind_run, ← heq]
    cases hrun : q s with
    | error e => exact .inl rfl
    | ok ar =>
      rw [hrun] at hs
      obtain ⟨us, rfl⟩ := hs
      obtain heq' | ⟨ts, r, hr, hrefused, hbeyond⟩ := hgf ar.1 ar.2
      · exact .inl heq'
      · refine .inr ⟨us ++ ts, r, ?_, hrefused, hbeyond⟩
        rw [hr, push_push]
  · refine .inr ⟨ts, r, rfl, ?_, Onward.beyond_bind hg hbeyond⟩
    rw [bind_run, hrefused]

/-- A script outlasts the other run of it if its calls do. -/
theorem Script.run_outlasts {call call' : (c : Call) → Parser c.target.Result} {script : Script α}
    (h : script.Uses fun c => Onward (call' c) ∧ Outlasts x (call' c) (call c)) :
    Outlasts x (script.run call') (script.run call) := by
  induction script with
  | done a => exact Outlasts.refl x _
  | step s next ih =>
    refine Outlasts.bind s.onward_run (Outlasts.refl x _) (fun b => ?_) fun b => ih b (h b)
    exact Script.onward_run ((h b).mono fun c hc => hc.1)
  | call c next ih =>
    refine Outlasts.bind h.1.1 h.1.2 (fun b => ?_) fun b => ih b (h.2 b)
    exact Script.onward_run ((h.2 b).mono fun c hc => hc.1)

/-- **With more levels, every part of the grammar outlasts the part with fewer.** -/
theorem Call.parser_outlasts {limit limit' n n' : Nat} (hn : n ≤ n') (c : Call)
    (h : c.Fits limit n) (h' : c.Fits limit' n') :
    Outlasts (.nesting limit) (c.parser limit' n') (c.parser limit n) := by
  refine Call.induction
    (P := fun n c => ∀ n', n ≤ n' → c.Fits limit n → c.Fits limit' n' →
      Outlasts (.nesting limit) (c.parser limit' n') (c.parser limit n))
    ?_ ?_ ?_ n c n' hn h h'
  · intro n r ih n' hn hr hr'
    rw [Call.parser_rule, Call.parser_rule,
      ← Script.run_ofRule r fun houter => (hr houter).2,
      ← Script.run_ofRule r fun houter => (hr' houter).2]
    refine Script.run_outlasts ((Script.uses_ofRule r).mono fun c hc => ?_)
    exact ⟨Call.onward_parser c (hr'.of_mem_calls hc),
      ih c hc n' hn (hr.of_mem_calls hc) (hr'.of_mem_calls hc)⟩
  · exact fun r n' _ _ hr' => (Call.onward_parser (.nested r) hr').outlasts_unexpected
  · intro n r ih n' hn hr hr'
    obtain ⟨k, rfl⟩ : ∃ k, n' = k + 1 := ⟨n' - 1, by omega⟩
    have hrule := ih k (Nat.le_of_succ_le_succ hn) hr.opened hr'.opened
    rw [Call.parser_rule, Call.parser_rule] at hrule
    exact hrule

theorem program_outlasts {limit limit' : Nat} (h : limit ≤ limit') :
    Outlasts (.nesting limit) (program limit') (program limit) :=
  Call.parser_outlasts h (.rule .program) (fun _ => ⟨rfl, rfl⟩) fun _ => ⟨rfl, rfl⟩

end Grammar

open TokenStream Grammar

/-! ### Where a parse stops -/

variable {limit limit' : Nat} {items : List Item}

theorem exists_of_stopIndex {k : Nat} (h : stopIndex limit items = some k) :
    ∃ e, program limit (ofItems (counted 0 items)) = .error e ∧ e.position.line = k := by
  unfold stopIndex at h
  split at h
  · cases h
  · rename_i e he
    exact ⟨e, parse_eq_error.mp he, Option.some.inj h⟩

theorem terminals_counted (items : List Item) :
    terminals (ofItems (counted 0 items)).tokens = terminals (ofItems items).tokens :=
  (alike_counted .start .start items 0).1

theorem length_tokens_counted (items : List Item) :
    (ofItems (counted 0 items)).tokens.length = (ofItems items).tokens.length := by
  simpa [terminals] using congrArg List.length (terminals_counted items)

/-- A refusal of counted items tells how many are in front of it. -/
theorem line_refusal_counted {r : TokenStream} {ts : List Token}
    (h : ofItems (counted 0 items) = r.push ts) (x : Expectation) :
    (r.refusal x).position.line = ts.length := by
  obtain ⟨rfl, -, hlength⟩ := behind_push h
  have hle : ts.length ≤ items.length := by
    have := length_tokens_counted items
    have := length_tokens_le items
    omega
  obtain ⟨y, hy, hposition⟩ := getElem?_counted items 0 hle
  rw [ofItems, refusal_behind .start _ hlength, position_refusalAfter, positionAfter, hy]
  show y.position.line = ts.length
  rw [hposition, Nat.zero_add]

/-! ### A higher limit -/

/-- With a higher limit, a parse that fails does not stop earlier. -/
theorem stopIndex_le (h : limit ≤ limit') {k j : Nat} (hk : stopIndex limit items = some k)
    (hj : stopIndex limit' items = some j) : k ≤ j := by
  obtain ⟨e, he, rfl⟩ := exists_of_stopIndex hk
  obtain ⟨e', he', rfl⟩ := exists_of_stopIndex hj
  rcases program_outlasts h (ofItems (counted 0 items)) with heq | ⟨ts, r, hs, hrefused, hbeyond⟩
  · rw [he, he'] at heq
    obtain rfl := Except.error.inj heq
    exact Nat.le_refl _
  · rw [he'] at hbeyond
    obtain ⟨us, r', x, rfl, rfl⟩ := hbeyond
    obtain rfl := Except.error.inj (he.symm.trans hrefused)
    rw [line_refusal_counted hs, line_refusal_counted (hs.trans (push_push ts us r')),
      List.length_append]
    exact Nat.le_add_right _ _

/-- With a higher limit, a stream gives the same, unless the lower limit is refused. -/
theorem TokenStream.parse_eq_or_refused (h : limit ≤ limit') (s : TokenStream) :
    s.parse limit' = s.parse limit ∨
      ∃ e, s.parse limit = .error (.grammar e) ∧ e.expected = .nesting limit := by
  rcases program_outlasts h s with heq | ⟨ts, r, rfl, hrefused, hbeyond⟩
  · left
    rw [TokenStream.parse, TokenStream.parse, StateT.run', StateT.run', heq]
  · have hparse := parse_eq_error.mpr hrefused
    obtain ⟨_ | ⟨t, us⟩, q | e⟩ := r
    · exact .inr ⟨_, hparse, rfl⟩
    · -- the lexical error in front comes before the limit, here and with more levels
      left
      rw [hparse]
      cases hrun : program limit' (push ts ⟨[], .broken e⟩) with
      | ok pr =>
        have hclosed := (exists_phrase (parse_eq_ok.mpr ⟨pr.2, hrun⟩)).1
        cases hclosed
      | error e' =>
        rw [hrun] at hbeyond
        obtain ⟨us, r', x, hr, rfl⟩ := hbeyond
        obtain ⟨us', ending⟩ := r'
        obtain ⟨hnil, rfl⟩ := TokenStream.mk.inj hr
        obtain ⟨rfl, rfl⟩ := List.append_eq_nil_iff.mp hnil.symm
        exact parse_eq_error.mpr hrun
    · exact .inr ⟨_, hparse, rfl⟩
    · exact .inr ⟨_, hparse, rfl⟩

/-- **The limit of nesting takes nothing away but what nests too deep.** A parse that is not
refused for its limit gives the same with every higher limit, be it a program or an error.
And where a parse stops, for its limit or another reason, no parse with a higher limit has a
syntax error about an earlier item. -/
theorem parse_of_limit_le (items : List Item) {limit limit' : Nat} (h : limit ≤ limit') :
    ((∀ e, (ofItems items).parse limit = .error (.grammar e) → e.expected ≠ .nesting limit) →
      (ofItems items).parse limit' = (ofItems items).parse limit) ∧
    ∀ e, (ofItems items).parse limit = .error (.grammar e) → ∃ k, StopsAt limit items k e ∧
      ∀ e', (ofItems items).parse limit' = .error (.grammar e') →
        ∃ j, k ≤ j ∧ StopsAt limit' items j e' := by
  refine ⟨fun hother => ?_, fun e he => ?_⟩
  · rcases (ofItems items).parse_eq_or_refused h with heq | ⟨e, he, hnesting⟩
    · exact heq
    · exact absurd hnesting (hother e he)
  · obtain ⟨k, hk, -⟩ := exists_stopsAt he
    refine ⟨k, hk, fun e' he' => ?_⟩
    obtain ⟨j, hj, -⟩ := exists_stopsAt he'
    exact ⟨j, stopIndex_le h hk.index hj.index, hj⟩

/-- A block in a block: `skip` is one level down from the inner one. -/
def nestedBlocks : List Item :=
  [.ok ⟨.funWord, "fun", ⟨1, 1⟩⟩, .ok ⟨.ident, "f", ⟨1, 5⟩⟩, .ok ⟨.lParen, "(", ⟨1, 6⟩⟩,
    .ok ⟨.rParen, ")", ⟨1, 7⟩⟩, .ok ⟨.beginWord, "begin", ⟨2, 1⟩⟩, .ok ⟨.beginWord, "begin", ⟨2, 7⟩⟩,
    .ok ⟨.beginWord, "begin", ⟨2, 13⟩⟩, .ok ⟨.skipWord, "skip", ⟨2, 19⟩⟩, .ok ⟨.endWord, "end", ⟨3, 1⟩⟩,
    .ok ⟨.endWord, "end", ⟨3, 5⟩⟩, .ok ⟨.endWord, "end", ⟨3, 9⟩⟩]

/-- With one level the inner block is refused, with two levels what is in it, and three levels
are enough. -/
theorem nestedBlocks_stop : 1 ≤ 2 ∧ (∃ e e', StopsAt 1 nestedBlocks 6 e ∧ e.expected = .nesting 1 ∧
      StopsAt 2 nestedBlocks 7 e' ∧ e'.expected = .nesting 2) ∧
    3 ≤ 64 ∧ (ofItems nestedBlocks).parse 64 = (ofItems nestedBlocks).parse 3 := by
  refine ⟨by decide, ?_, by decide, ?_⟩
  · obtain ⟨k, hk, hlater⟩ := (parse_of_limit_le nestedBlocks (show 1 ≤ 2 by decide)).2 _ rfl
    obtain ⟨j, -, hj⟩ := hlater _ rfl
    obtain rfl : k = 6 := Option.some.inj hk.index.symm
    obtain rfl : j = 7 := Option.some.inj hj.index.symm
    exact ⟨_, _, hk, rfl, hj, rfl⟩
  · refine (parse_of_limit_le nestedBlocks (show 3 ≤ 64 by decide)).1 fun e he => ?_
    cases he

end SyntaxGraph
