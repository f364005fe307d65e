/-
# How far a run looks

A run depends on the tokens that it takes and on the token behind them, and of
these tokens only on what they show as. An error looks at the token that it
blames; an error about a literal looks one token further, since a lexical
error behind the literal counts first.

`Mirrors exempt p q` says that on its part of the stream, `q` does what `p`
does: it reads the same thing or fails in the same place. The errors in
`exempt` are left out, so that `q` may be a grammar with more levels.

Key definitions: `TokenStream.Alike`, `Expectation.reach`, `Grammar.Mirrors`.
Key theorems: `Grammar.Mirrors.bind`, `Grammar.mirrors_chooseToken_bind`,
`Grammar.Mirrors.collect`.
-/
import SyntaxGraph.Proofs.Grammar.Border
import SyntaxGraph.Proofs.Grammar.Verdict

namespace SyntaxGraph

/-- How many tokens an error looks at, from the one that it blames on. -/
def Expectation.reach : Expectation → Nat
  | integer | float => 2
  | _ => 1

theorem Expectation.one_le_reach (x : Expectation) : 1 ≤ x.reach := by
  cases x <;> first | exact Nat.le_refl 1 | exact Nat.le_succ 1

theorem Expectation.reach_eq_one {x : Expectation} (h : x ≠ integer ∧ x ≠ float) : x.reach = 1 := by
  cases x <;> first | rfl | exact absurd rfl h.1 | exact absurd rfl h.2

/-- The end is a lexical error. -/
def Ending.isBroken : Ending → Bool
  | endOfInput _ => false
  | broken _ => true

namespace TokenStream

/-- The first `n` tokens of two streams show as the same terminals, and where
there are fewer, the streams end in the same way. -/
structure Alike (n : Nat) (s r : TokenStream) : Prop where
  front : (terminals s.tokens).take n = (terminals r.tokens).take n
  ending : s.tokens.length < n → s.ending.isBroken = r.ending.isBroken

theorem Alike.mono {m n : Nat} {s r : TokenStream} (h : Alike n s r) (hmn : m ≤ n) : Alike m s r where
  front := by
    have := congrArg (List.take m) h.front
    simpa [List.take_take, Nat.min_eq_left hmn] using this
  ending hlen := h.ending (Nat.lt_of_lt_of_le hlen hmn)

theorem Alike.trans {n : Nat} {s r q : TokenStream} (h : Alike n s r) (h' : Alike n r q) :
    Alike n s q where
  front := h.front.trans h'.front
  ending hlen := by
    have hlength := congrArg List.length h.front
    simp only [terminals, List.length_take, List.length_map] at hlength
    exact (h.ending hlen).trans (h'.ending (by omega))

theorem Alike.push {n : Nat} {s r : TokenStream} (h : Alike n s r) {ts us : List Token}
    (hus : terminals us = terminals ts) : Alike n (s.push ts) (r.push us) := by
  have hlen : us.length = ts.length := by simpa [terminals] using congrArg List.length hus
  refine ⟨?_, fun hn => h.ending ?_⟩
  · simp only [tokens_push, terminals_append, hus, List.take_append]
    rw [(h.mono (Nat.sub_le n _)).front]
  · simp only [tokens_push, List.length_append] at hn
    omega

theorem Alike.next_eq {s r : TokenStream} (h : Alike 1 s r) : s.next = r.next := by
  obtain ⟨_ | ⟨t, ts⟩, _⟩ := s <;> obtain ⟨_ | ⟨u, us⟩, _⟩ := r
  · rfl
  · exact absurd h.front (by simp)
  · exact absurd h.front (by simp)
  · have := h.front
    simp only [terminals_cons, List.take_succ_cons, List.take_zero, List.cons.injEq, and_true] at this
    exact congrArg some (Grammar.kind_of_terminal this)

theorem Alike.settled {s r : TokenStream} (h : Alike 1 s r) (hs : s.Settled) : r.Settled := by
  rintro e rfl
  obtain ⟨_ | ⟨t, ts⟩, p | e'⟩ := s
  · exact absurd (h.ending Nat.zero_lt_one) (by simp [Ending.isBroken])
  · exact hs e' rfl
  · exact absurd h.front (by simp)
  · exact absurd h.front (by simp)

theorem Alike.exists_broken {e : LexicalError} {r : TokenStream} (h : Alike 1 ⟨[], .broken e⟩ r) :
    ∃ e', r = ⟨[], .broken e'⟩ := by
  obtain ⟨_ | ⟨t, ts⟩, p | e'⟩ := r
  · exact absurd (h.ending Nat.zero_lt_one) (by simp [Ending.isBroken])
  · exact ⟨e', rfl⟩
  · exact absurd h.front (by simp)
  · exact absurd h.front (by simp)

theorem Alike.exists_push {n : Nat} {t : Token} {s r : TokenStream} (h : Alike (n + 1) (s.push [t]) r) :
    ∃ u r', r = r'.push [u] ∧ u.terminal = t.terminal ∧ Alike n s r' := by
  obtain ⟨_ | ⟨u, us⟩, ending⟩ := r
  · exact absurd h.front (by simp)
  · have hfront := h.front
    simp only [tokens_push, List.singleton_append, terminals_cons, List.take_succ_cons,
      List.cons.injEq] at hfront
    refine ⟨u, ⟨us, ending⟩, rfl, hfront.1.symm, hfront.2, fun hlen => ?_⟩
    exact h.ending (by simpa using Nat.succ_lt_succ hlen)

end TokenStream

namespace Grammar

open TokenStream

variable {α β : Type} (exempt : Expectation → Prop)

/-- What `q` has to do for the outcome that `p` has on the stream `s`. -/
def MirrorsAt (q : Parser α) (s : TokenStream) : Except ParseError (α × TokenStream) → Prop
  | .ok (a, s') => ∃ ts, s = s'.push ts ∧
      ∀ us r, terminals us = terminals ts → Alike 1 s' r → q (r.push us) = .ok (a, r)
  | .error e => ∃ (x : Expectation) (ts : List Token) (s' : TokenStream), s = s'.push ts ∧
      e = s'.refusal x ∧ (x.reach = 2 → ∃ t ∈ s'.tokens.head?, ¬ t.Readable) ∧
      (exempt x ∨
        ∀ us r, terminals us = terminals ts → Alike x.reach s' r → q (r.push us) = .error (r.refusal x))

/-- Wherever `p` reads something or fails, so does `q` on alike streams. -/
def Mirrors (p q : Parser α) : Prop :=
  ∀ s, MirrorsAt exempt q s (p s)

variable {exempt} {p q : Parser α}

theorem mirrors_pure (a : α) : Mirrors exempt (pure a : Parser α) (pure a) := by
  refine fun s => ⟨[], rfl, fun us r hus _ => ?_⟩
  obtain rfl := terminals_eq_nil hus
  rfl

theorem mirrors_unexpected {x : Expectation} (hx : x.reach = 1) :
    Mirrors exempt (unexpected x : Parser α) (unexpected x) := by
  intro s
  rw [unexpected_run]
  refine ⟨x, [], s, rfl, rfl, fun h => by simp [hx] at h, .inr fun us r hus _ => ?_⟩
  obtain rfl := terminals_eq_nil hus
  exact unexpected_run x r

/-- An exempt error need not be mirrored. -/
theorem mirrors_exempt {x : Expectation} (hx : x.reach = 1) (h : exempt x) :
    Mirrors exempt (unexpected x : Parser α) q := by
  intro s
  rw [unexpected_run]
  exact ⟨x, [], s, rfl, rfl, fun h => by simp [hx] at h, .inl h⟩

theorem MirrorsAt.push {q g : Parser α} {s : TokenStream} {w : List Token}
    {o : Except ParseError (α × TokenStream)} (h : MirrorsAt exempt g s o)
    (hq : ∀ us r, terminals us = terminals w → Alike 1 s r → q (r.push us) = g r) :
    MirrorsAt exempt q (s.push w) o := by
  have hmany : ∀ {vs us s' r n}, s = s'.push vs → terminals us = terminals (w ++ vs) → 1 ≤ n →
      Alike n s' r → ∃ us', terminals us' = terminals vs ∧ q (r.push us) = g (r.push us') := by
    rintro vs us s' r n rfl hus hn hr
    obtain ⟨us₁, us₂, rfl, h₁, h₂⟩ := terminals_eq_append (hus.trans (terminals_append w vs))
    refine ⟨us₂, h₂, ?_⟩
    rw [← push_push]
    exact hq us₁ _ h₁ ((hr.mono hn).push h₂)
  rcases o with e | ⟨b, s'⟩
  · obtain ⟨x, vs, s', hs, rfl, hread, hx⟩ := h
    refine ⟨x, w ++ vs, s', by simp [hs], rfl, hread, hx.imp_right fun hx us r hus hr => ?_⟩
    obtain ⟨us', hus', hrun⟩ := hmany hs hus x.one_le_reach hr
    exact hrun.trans (hx us' r hus' hr)
  · obtain ⟨vs, hs, hok⟩ := h
    refine ⟨w ++ vs, by simp [hs], fun us r hus hr => ?_⟩
    obtain ⟨us', hus', hrun⟩ := hmany hs hus (Nat.le_refl 1) hr
    exact hrun.trans (hok us' r hus' hr)

/-- A parser that does the same on alike streams may take the place of another. -/
theorem MirrorsAt.congr {q g : Parser α} {s : TokenStream}
    {o : Except ParseError (α × TokenStream)} (h : MirrorsAt exempt g s o)
    (hq : ∀ r, Alike 1 s r → q r = g r) : MirrorsAt exempt q s o := by
  refine h.push (w := []) fun us r hus hr => ?_
  obtain rfl := terminals_eq_nil hus
  exact hq r hr

/-- A sequence is mirrored part by part. -/
theorem MirrorsAt.bind {f g : α → Parser β} {s : TokenStream} (hs : MirrorsAt exempt q s (p s))
    (hf : ∀ a, Mirrors exempt (f a) (g a)) : MirrorsAt exempt (q >>= g) s ((p >>= f) s) := by
  rw [bind_run]
  cases hrun : p s with
  | error e =>
    rw [hrun] at hs
    obtain ⟨x, ts, s', rfl, rfl, hread, hx⟩ := hs
    refine ⟨x, ts, s', rfl, rfl, hread, hx.imp_right fun hx us r hus hr => ?_⟩
    rw [bind_run, hx us r hus hr]
  | ok as =>
    rw [hrun] at hs
    obtain ⟨a, s'⟩ := as
    obtain ⟨ts, rfl, hok⟩ := hs
    exact (hf a s').push fun us r hus hr => bind_of_ok (hok us r hus hr)

theorem Mirrors.bind {f g : α → Parser β} (hp : Mirrors exempt p q)
    (hf : ∀ a, Mirrors exempt (f a) (g a)) : Mirrors exempt (p >>= f) (q >>= g) :=
  fun s => (hp s).bind hf

/-! ### Taking the token in front -/

theorem settled_of_chooseToken {f : Token → Option β} {t : Token} {b : β} {r : TokenStream}
    (hb : f t = some b) (h : chooseToken f (r.push [t]) = .ok (some b, r)) : r.Settled := by
  rintro e rfl
  rw [chooseToken_push hb, bind_run, settle_broken] at h
  cases h

/-- A choice among terminals is mirrored when it is where it takes a token, and
what follows is where it takes none. -/
theorem mirrors_chooseToken {f : Token → Option β} {g h : Option β → Parser α}
    (hf : ∀ t u b, u.terminal = t.terminal → f t = some b → ∃ c, f u = some c)
    (hsome : ∀ t b r, f t = some b → r.Settled →
      MirrorsAt exempt (chooseToken f >>= h) (r.push [t]) (g (some b) r))
    (hnone : Mirrors exempt (g none) (h none)) :
    Mirrors exempt (chooseToken f >>= g) (chooseToken f >>= h) := by
  intro s
  rcases chooseToken_cases f s with ⟨t, b, r, rfl, hb, hrun⟩ | ⟨t, e, rfl, hrun⟩ | ⟨hleft, hrun⟩
  · rw [bind_of_ok hrun]
    exact hsome t b r hb (settled_of_chooseToken hb hrun)
  · obtain ⟨b, hb⟩ : ∃ b, f t = some b := by
      refine Option.ne_none_iff_exists'.mp fun hb => ?_
      rw [chooseToken_none (by simpa using hb)] at hrun
      cases hrun
    rw [bind_run, hrun]
    -- any expectation would do: the lexical error counts
    refine ⟨.statement, [t], ⟨[], .broken e⟩, rfl, rfl, nofun, .inr fun us r hus hr => ?_⟩
    obtain ⟨u, rfl, hu⟩ := terminals_eq_singleton (w := us) hus
    obtain ⟨c, hc⟩ := hf t u b hu hb
    obtain ⟨e', rfl⟩ := hr.exists_broken
    rw [bind_run, chooseToken_push hc]
    rfl
  · rw [bind_of_ok hrun]
    refine (hnone s).congr fun r hr => bind_of_ok (chooseToken_none fun u hu => ?_)
    refine Option.eq_none_iff_forall_ne_some.mpr fun c hc => ?_
    obtain ⟨_ | ⟨v, vs⟩, ending⟩ := r
    · simp at hu
    obtain rfl : v = u := by simpa using hu
    obtain ⟨_ | ⟨t, ts⟩, ending'⟩ := s
    · exact absurd hr.front (by simp)
    have hterminal : t.terminal = v.terminal := by simpa using hr.front
    obtain ⟨b, hb⟩ := hf v t c hterminal hc
    simp [hleft t (by simp)] at hb

/-- A choice is mirrored when what follows is, with the token taken and with
it left. -/
theorem mirrors_chooseToken_bind {f : Token → Option β} {g h : Option β → Parser α}
    (hf : ∀ t u b, u.terminal = t.terminal → f t = some b →
      ∃ c, f u = some c ∧ h (some c) = h (some b))
    (hsome : ∀ t b, f t = some b → Mirrors exempt (g (some b)) (h (some b)))
    (hnone : Mirrors exempt (g none) (h none)) :
    Mirrors exempt (chooseToken f >>= g) (chooseToken f >>= h) := by
  refine mirrors_chooseToken (fun t u b hu hb => (hf t u b hu hb).imp fun _ => And.left)
    (fun t b r hb hr => ?_) hnone
  refine (hsome t b hb r).push fun us r' hus hr' => ?_
  obtain ⟨u, rfl, hu⟩ := terminals_eq_singleton (w := us) hus
  obtain ⟨c, hc, hsame⟩ := hf t u b hu hb
  rw [bind_of_ok (chooseToken_of_settled hc (hr'.settled hr)), hsame]

theorem mirrors_choose_bind {f : Token.Kind → Option β} {g h : Option β → Parser α}
    (hsome : ∀ k b, f k = some b → Mirrors exempt (g (some b)) (h (some b)))
    (hnone : Mirrors exempt (g none) (h none)) : Mirrors exempt (choose f >>= g) (choose f >>= h) :=
  mirrors_chooseToken_bind (fun _ _ b hu hb => ⟨b, by rw [kind_of_terminal hu]; exact hb, rfl⟩)
    (fun t b hb => hsome t.kind b hb) hnone

theorem mirrors_accept?_bind {k : Token.Kind} {g h : Option Token → Parser α}
    (hsame : ∀ t u : Token, t.kind = k → u.terminal = t.terminal → h (some u) = h (some t))
    (hsome : ∀ t : Token, t.kind = k → Mirrors exempt (g (some t)) (h (some t)))
    (hnone : Mirrors exempt (g none) (h none)) :
    Mirrors exempt (accept? k >>= g) (accept? k >>= h) := by
  refine mirrors_chooseToken_bind (fun t u b hu hb => ?_) (fun t b hb => ?_) hnone
  · obtain ⟨hk, rfl⟩ : t.kind = k ∧ t = b := by simpa using hb
    exact ⟨u, by simp [kind_of_terminal hu, hk], hsame t u hk hu⟩
  · obtain ⟨hk, rfl⟩ : t.kind = k ∧ t = b := by simpa using hb
    exact hsome t hk

/-- A literal is read as a value or is to blame itself, on both sides. -/
theorem mirrors_literal_bind {k : Token.Kind} {x : Expectation} {literal : Token → Parser α}
    {g h : Option Token → Parser α} (hx : x.reach = 2) (hg : ∀ t, g (some t) = literal t)
    (hh : ∀ t, h (some t) = literal t)
    (hliteral : ∀ t : Token, t.kind = k →
      (∃ a, ∀ u : Token, u.terminal = t.terminal → literal u = pure a) ∨
      ¬ t.Readable ∧ ∀ u : Token, u.terminal = t.terminal → literal u = failAt u x)
    (hnone : Mirrors exempt (g none) (h none)) :
    Mirrors exempt (accept? k >>= g) (accept? k >>= h) := by
  refine mirrors_chooseToken (fun t u b hu hb => ?_) (fun t b r hb hr => ?_) hnone
  · obtain ⟨hk, rfl⟩ : t.kind = k ∧ t = b := by simpa using hb
    exact ⟨u, by simp [kind_of_terminal hu, hk]⟩
  obtain ⟨hk, rfl⟩ : t.kind = k ∧ t = b := by simpa using hb
  have htake : ∀ u r', u.terminal = t.terminal → Alike 1 r r' →
      (accept? k >>= h) (r'.push [u]) = literal u r' := by
    intro u r' hu hr'
    rw [bind_of_ok (accept?_push ((kind_of_terminal hu).trans hk) (hr'.settled hr)), hh]
  rw [hg]
  rcases hliteral t hk with ⟨a, ha⟩ | ⟨hread, hfail⟩
  · rw [ha t rfl, pure_run]
    refine ⟨[t], rfl, fun us r' hus hr' => ?_⟩
    obtain ⟨u, rfl, hu⟩ := terminals_eq_singleton (w := us) hus
    exact (htake u r' hu hr').trans (by rw [ha u hu, pure_run])
  · rw [hfail t rfl]
    refine ⟨x, [], r.push [t], rfl, rfl, fun _ => ⟨t, rfl, hread⟩, .inr fun us r' hus hr' => ?_⟩
    obtain rfl := terminals_eq_nil hus
    rw [hx] at hr'
    obtain ⟨u, r', rfl, hu, hr'⟩ := hr'.exists_push
    exact (htake u r' hu hr').trans (by rw [hfail u hu]; rfl)

theorem mirrors_accept_bind {k : Token.Kind} {g h : Bool → Parser α}
    (hyes : Mirrors exempt (g true) (h true)) (hno : Mirrors exempt (g false) (h false)) :
    Mirrors exempt (accept k >>= g) (accept k >>= h) := by
  simp only [accept, bind_assoc]
  exact mirrors_accept?_bind (fun _ _ _ _ => rfl) (fun _ _ => hyes) hno

theorem mirrors_expectToken_bind {k : Token.Kind} {place : Place} {g h : Token → Parser α}
    (hsame : ∀ t u : Token, t.kind = k → u.terminal = t.terminal → h u = h t)
    (hg : ∀ t : Token, t.kind = k → Mirrors exempt (g t) (h t)) :
    Mirrors exempt (expect k place >>= g) (expect k place >>= h) := by
  simp only [expect, bind_assoc]
  refine mirrors_accept?_bind hsame hg ?_
  simp only [unexpected_bind]
  exact mirrors_unexpected rfl

theorem mirrors_expect_bind {k : Token.Kind} {place : Place} {p q : Parser α}
    (h : Mirrors exempt p q) :
    Mirrors exempt (expect k place >>= fun _ => p) (expect k place >>= fun _ => q) :=
  mirrors_expectToken_bind (fun _ _ _ _ => rfl) fun _ _ => h

/-! ### Looking at what is in front -/

theorem mirrors_peek_bind {test : Token.Kind → Bool} {g h : Bool → Parser α}
    (hg : ∀ b, Mirrors exempt (g b) (h b)) :
    Mirrors exempt (peek test >>= g) (peek test >>= h) := by
  intro s
  rw [bind_of_ok (peek_run test s)]
  refine (hg _ s).congr fun r hr => ?_
  rw [bind_of_ok (peek_run test r), hr.next_eq]

theorem mirrors_atEnd_bind {g h : Bool → Parser α} (hg : ∀ b, Mirrors exempt (g b) (h b)) :
    Mirrors exempt (atEnd >>= g) (atEnd >>= h) := by
  intro s
  rw [bind_of_ok (atEnd_run s)]
  refine (hg _ s).congr fun r hr => ?_
  have hend : s.tokens.isEmpty = r.tokens.isEmpty := by
    have := hr.next_eq
    simp only [next] at this
    cases hs : s.tokens <;> cases hr : r.tokens <;> simp_all
  rw [bind_of_ok (atEnd_run r), hend]

theorem mirrors_settle_bind (h : Mirrors exempt p q) :
    Mirrors exempt (settle >>= fun _ => p) (settle >>= fun _ => q) := by
  intro s
  rcases settle_cases s .statement with ⟨hs, hrun⟩ | ⟨e, rfl, -⟩
  · rw [bind_of_ok hrun]
    exact (h s).congr fun r hr => bind_of_ok (settle_run (hr.settled hs))
  · rw [bind_run, settle_broken]
    refine ⟨.statement, [], ⟨[], .broken e⟩, rfl, rfl, nofun, .inr fun us r hus hr => ?_⟩
    obtain rfl := terminals_eq_nil hus
    obtain ⟨e', rfl⟩ := hr.exists_broken
    rfl

/-! ### Repetition -/

variable {step step' : Parser (Option α)}

/-- A repetition is mirrored when its step is. -/
theorem Mirrors.collect (hstep : Repeatable step) (hstep' : Repeatable step')
    (h : Mirrors exempt step step') : Mirrors exempt (collect step) (collect step') := by
  intro s
  induction hn : s.tokens.length using Nat.strongRecOn generalizing s with
  | ind n ih =>
    have hs := h s
    rw [collect_eq hstep]
    cases hrun : step s with
    | error e =>
      rw [hrun] at hs
      obtain ⟨x, ts, s', rfl, rfl, hread, hx⟩ := hs
      refine ⟨x, ts, s', rfl, rfl, hread, hx.imp_right fun hx us r hus hr => ?_⟩
      rw [collect_eq hstep', hx us r hus hr]
    | ok as =>
      rw [hrun] at hs
      obtain ⟨_ | a, s'⟩ := as <;> obtain ⟨ts, rfl, hok⟩ := hs
      · refine ⟨ts, rfl, fun us r hus hr => ?_⟩
        exact collect_none hstep' (hok us r hus hr)
      · have hrest := ih _ (hn ▸ hstep.takes hrun) s' rfl
        refine (hrest.bind fun as => mirrors_pure (a :: as)).push fun us r hus hr => ?_
        rw [collect_eq hstep', hok us r hus hr]

/-- What is mirrored gives no tokens back. -/
theorem Mirrors.forward (h : Mirrors exempt p q) : Forward p := by
  intro s r a hrun
  have hs := h s
  rw [hrun] at hs
  obtain ⟨ts, rfl, -⟩ := hs
  simp

theorem Mirrors.separated {separator : Token.Kind} (h : Mirrors exempt p q) (hq : Forward q) :
    Mirrors exempt (separated separator p) (separated separator q) := by
  have hitem : Mirrors exempt (nextItem separator p) (nextItem separator q) :=
    mirrors_accept_bind (h.bind fun _ => mirrors_pure _) (mirrors_pure _)
  have hitems := Mirrors.collect (repeatable_nextItem h.forward) (repeatable_nextItem hq) hitem
  exact h.bind fun a => hitems.bind fun as => mirrors_pure _

theorem Mirrors.chained {ω : Type} {join : ω → α → α → α} {f : Token.Kind → Option ω}
    (h : Mirrors exempt p q) (hq : Forward q) :
    Mirrors exempt (chained join (choose f) p) (chained join (choose f) q) := by
  have hoperand : Mirrors exempt (nextOperand (choose f) p) (nextOperand (choose f) q) :=
    mirrors_choose_bind (fun _ _ _ => h.bind fun _ => mirrors_pure _) (mirrors_pure _)
  have hoperands :=
    Mirrors.collect (repeatable_nextOperand h.forward) (repeatable_nextOperand hq) hoperand
  exact h.bind fun a => hoperands.bind fun as => mirrors_pure _

end Grammar
end SyntaxGraph
