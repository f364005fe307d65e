/-
# Verdicts on runs

What a part of the grammar has to do on a stream is said by two conditions:
`ok a w s` for reading `a` from the word `w` in front of the stream `s`, and
`whole w` for the words that are a whole of their kind. A run passes when

* what it reads, it reads from the tokens it takes, and `ok` holds;
* where it fails, the tokens it has taken begin some whole word, and the error
  is the refusal of the stream behind them.

Only a literal that does not read as a number is an excuse. Lexical errors are not judged.

The rules below follow the parts of a parser. Each of them moves the tokens
that are taken into the two conditions, so that what is left to show speaks of
the words that are still to come.

Key definitions: `Token.Readable`, `Grammar.Passes`, `Grammar.Meets`.
Key theorems: `Grammar.Passes.bind`, `Grammar.passes_choose_bind`,
`Grammar.passes_expect_bind`, `Grammar.passes_collect`.
-/
import SyntaxGraph.Proofs.Grammar.Run
import SyntaxGraph.Proofs.Grammar.Phrase

namespace SyntaxGraph

/-- A literal that reads as a number, or any other token. -/
def Token.Readable (t : Token) : Prop :=
  (t.kind = .intLiteral → (Decimal.readInt t.text.toList).isSome) ∧
    (t.kind = .floatLiteral → (Decimal.readFloat t.text.toList).isSome)

/-- The token to blame is a literal that does not read as a number. -/
def SyntaxError.Unreadable (e : SyntaxError) : Prop :=
  ∃ t, e.found = some t ∧ ¬ t.Readable

/-- The terminals that tokens show as. -/
def terminals (ts : List Token) : List Terminal :=
  ts.map Token.terminal

@[simp] theorem terminals_nil : terminals [] = [] := rfl

@[simp] theorem terminals_cons (t : Token) (ts : List Token) :
    terminals (t :: ts) = t.terminal :: terminals ts := rfl

@[simp] theorem terminals_append (ts us : List Token) :
    terminals (ts ++ us) = terminals ts ++ terminals us :=
  List.map_append

namespace Grammar

open TokenStream

variable {α β : Type}

/-- What a run may read, from which word and in front of which stream. -/
abbrev Reads (α : Type) := α → List Terminal → TokenStream → Prop

/-- The outcome of a run on the stream `s` is as it should be. -/
def Passes (s : TokenStream) (ok : Reads α) (whole : List Terminal → Prop) :
    Except ParseError (α × TokenStream) → Prop
  | .ok (a, r) => ∃ ts, s = r.push ts ∧ ok a (terminals ts) r
  | .error (.grammar e) => e.Unreadable ∨ ∃ (ts : List Token) (r : TokenStream),
      s = r.push ts ∧ r.refusal e.expected = .grammar e ∧ ∃ u, whole (terminals ts ++ u)
  | .error (.lexical _) => True

/-- All runs of a part of the grammar are as they should be. -/
def Meets (p : Parser α) (ok : Reads α) (whole : List Terminal → Prop) : Prop :=
  ∀ s, Passes s ok whole (p s)

variable {s r : TokenStream} {ok : Reads α} {whole : List Terminal → Prop}

/-- A run behind the tokens `ts` is judged by what is left to show behind
them. -/
theorem Passes.push {ts : List Token} {o : Except ParseError (α × TokenStream)}
    (h : Passes r (fun a w => ok a (terminals ts ++ w)) (fun w => whole (terminals ts ++ w)) o) :
    Passes (r.push ts) ok whole o := by
  rcases o with (_ | e) | ⟨a, r'⟩
  · trivial
  · rcases h with h | ⟨us, r', rfl, he, u, hu⟩
    · exact .inl h
    · exact .inr ⟨ts ++ us, r', by simp, he, u, by simpa using hu⟩
  · obtain ⟨us, rfl, hok⟩ := h
    exact ⟨ts ++ us, by simp, by simpa using hok⟩

/-- Weaker conditions are met too; a whole may be a part of a larger whole. -/
theorem Passes.imp {ok' : Reads α} {whole' : List Terminal → Prop}
    {o : Except ParseError (α × TokenStream)} (h : Passes s ok whole o)
    (hok : ∀ a w r, ok a w r → ok' a w r) (hwhole : ∀ w, whole w → ∃ u, whole' (w ++ u)) :
    Passes s ok' whole' o := by
  rcases o with (_ | e) | ⟨a, r⟩
  · trivial
  · rcases h with h | ⟨ts, r, rfl, he, u, hu⟩
    · exact .inl h
    · obtain ⟨v, hv⟩ := hwhole _ hu
      exact .inr ⟨ts, r, rfl, he, u ++ v, by simpa using hv⟩
  · obtain ⟨ts, rfl, h⟩ := h
    exact ⟨ts, rfl, hok _ _ _ h⟩

/-- What may be read does not matter for a run that fails. -/
theorem Passes.of_error {ok' : Reads β} {e : ParseError} (h : Passes s ok' whole (.error e)) :
    Passes s ok whole (.error e) := by
  cases e <;> exact h

theorem passes_pure {a : α} (h : ok a [] s) : Passes s ok whole ((pure a : Parser α) s) :=
  ⟨[], rfl, h⟩

theorem passes_unexpected {x : Expectation} (h : ∃ u, whole u) :
    Passes s ok whole ((unexpected x : Parser α) s) := by
  rw [unexpected_run]
  rcases s.refusal_cases x with ⟨e, he⟩ | ⟨e, he, rfl⟩ <;> rw [he]
  · trivial
  · exact .inr ⟨[], s, rfl, he, by simpa using h⟩

/-- A sequence passes when its first part passes with conditions that
suit the rest: a whole of the first part begins a whole, and whatever the
first part reads, the second passes behind it. -/
theorem Passes.bind {p : Parser β} {f : β → Parser α} {ok₁ : Reads β}
    {whole₁ : List Terminal → Prop} (hp : Passes s ok₁ whole₁ (p s))
    (hwhole : ∀ w, whole₁ w → ∃ u, whole (w ++ u))
    (hf : ∀ b w r, ok₁ b w r →
      Passes r (fun a v => ok a (w ++ v)) (fun v => whole (w ++ v)) (f b r)) :
    Passes s ok whole ((p >>= f) s) := by
  rw [bind_run]
  cases hrun : p s with
  | error e =>
    rw [hrun] at hp
    have herror : Passes s (fun _ _ _ => True) whole (.error e) := hp.imp (fun _ _ _ _ => trivial) hwhole
    exact herror.of_error
  | ok br =>
    rw [hrun] at hp
    obtain ⟨ts, rfl, hb⟩ := hp
    exact (hf br.1 _ br.2 hb).push

/-! ### Taking the token in front -/

/-- A choice passes when the rest does behind the token that is taken, and
when it does with the token left. -/
theorem passes_chooseToken_bind {f : Token → Option β} {g : Option β → Parser α}
    (hsome : ∀ t b r, f t = some b → s = r.push [t] →
      Passes r (fun a w => ok a (t.terminal :: w)) (fun w => whole (t.terminal :: w)) (g (some b) r))
    (hnone : (∀ t ∈ s.tokens.head?, f t = none) → Passes s ok whole (g none s)) :
    Passes s ok whole ((chooseToken f >>= g) s) := by
  rcases chooseToken_cases f s with ⟨t, b, r, rfl, hb, hrun⟩ | ⟨t, e, rfl, hrun⟩ | ⟨h, hrun⟩
  · rw [bind_of_ok hrun]
    exact (hsome t b r hb rfl).push
  · rw [bind_run, hrun]
    trivial
  · rw [bind_of_ok hrun]
    exact hnone h

theorem passes_choose_bind {f : Token.Kind → Option β} {g : Option β → Parser α}
    (hsome : ∀ t b r, f t.kind = some b → s = r.push [t] →
      Passes r (fun a w => ok a (t.terminal :: w)) (fun w => whole (t.terminal :: w)) (g (some b) r))
    (hnone : (∀ k, s.next = some k → f k = none) → Passes s ok whole (g none s)) :
    Passes s ok whole ((choose f >>= g) s) :=
  passes_chooseToken_bind hsome fun h => hnone fun k hk => by
    obtain ⟨t, ht, rfl⟩ := Option.map_eq_some_iff.mp hk
    exact h t ht

theorem passes_accept?_bind {k : Token.Kind} {g : Option Token → Parser α}
    (hsome : ∀ t r, t.kind = k → s = r.push [t] →
      Passes r (fun a w => ok a (t.terminal :: w)) (fun w => whole (t.terminal :: w)) (g (some t) r))
    (hnone : s.next ≠ some k → Passes s ok whole (g none s)) :
    Passes s ok whole ((accept? k >>= g) s) :=
  passes_chooseToken_bind
    (fun t b r hb hs => by
      obtain ⟨hk, htb⟩ := Option.ite_none_right_eq_some.mp hb
      cases htb
      exact hsome t r hk hs)
    fun h => hnone fun hk => by
      obtain ⟨t, ht, hk⟩ := Option.map_eq_some_iff.mp hk
      simpa [hk] using h t ht

theorem passes_accept_bind {k : Token.Kind} {g : Bool → Parser α} (hk : k.isOpen = false)
    (hyes : ∀ r, s.next = some k →
      Passes r (fun a w => ok a (.word k :: w)) (fun w => whole (.word k :: w)) (g true r))
    (hno : s.next ≠ some k → Passes s ok whole (g false s)) :
    Passes s ok whole ((accept k >>= g) s) := by
  rw [accept, bind_assoc]
  refine passes_accept?_bind (fun t r ht hs => ?_) hno
  have h := hyes r (by simp [hs, ht])
  rw [← Token.terminal_of_kind hk ht] at h
  exact h

/-- Expecting a token passes when some whole begins with it, and when the rest
does behind it. -/
theorem passes_expectToken_bind {k : Token.Kind} {place : Place} {g : Token → Parser α}
    (hmiss : ∃ u, whole u)
    (hf : ∀ t r, t.kind = k →
      Passes r (fun a w => ok a (t.terminal :: w)) (fun w => whole (t.terminal :: w)) (g t r)) :
    Passes s ok whole ((expect k place >>= g) s) := by
  rw [expect, bind_assoc]
  refine passes_accept?_bind (fun t r ht _ => hf t r ht) fun _ => ?_
  show Passes s ok whole ((unexpected (.token k place) >>= g) s)
  have h : Passes s ok whole ((unexpected (.token k place) : Parser α) s) := passes_unexpected hmiss
  rw [unexpected_run] at h
  rwa [bind_run, unexpected_run]

theorem passes_expect_bind {k : Token.Kind} {place : Place} {g : Token → Parser α}
    (hk : k.isOpen = false) (hmiss : ∃ u, whole u)
    (hf : ∀ t r, Passes r (fun a w => ok a (.word k :: w)) (fun w => whole (.word k :: w)) (g t r)) :
    Passes s ok whole ((expect k place >>= g) s) :=
  passes_expectToken_bind hmiss fun t r ht => by
    have h := hf t r
    rw [← Token.terminal_of_kind hk ht] at h
    exact h

theorem passes_peek_bind {test : Token.Kind → Bool} {g : Bool → Parser α}
    (h : Passes s ok whole (g (s.next.any test) s)) :
    Passes s ok whole ((peek test >>= g) s) := by
  rw [bind_of_ok (peek_run test s)]
  exact h

theorem passes_settle_bind {p : Parser α} (h : Passes s ok whole (p s)) :
    Passes s ok whole ((settle >>= fun _ => p) s) := by
  rcases settle_cases s .statement with ⟨-, hrun⟩ | ⟨e, rfl, -⟩
  · rw [bind_of_ok hrun]
    exact h
  · trivial

/-! ### Repetition -/

variable {step : Parser (Option α)}

/-- A repetition passes when its step keeps an invariant `I` of what was
collected, from which word and in front of which stream: a step that yields
something keeps it, and one that yields nothing ends the repetition well. -/
theorem passes_collect (ok : Reads (List α)) (whole : List Terminal → Prop) (I : Reads (List α))
    (h : Repeatable step)
    (hstep : ∀ as w s, I as w s → Passes s
      (fun b v r => match b with
        | some a => I (as ++ [a]) (w ++ v) r
        | none => ok as (w ++ v) r)
      (fun v => whole (w ++ v)) (step s)) :
    ∀ (s : TokenStream) (as : List α) (w : List Terminal), I as w s →
      Passes s (fun bs v r => ok (as ++ bs) (w ++ v) r) (fun v => whole (w ++ v)) (collect step s) := by
  intro s
  induction hn : s.tokens.length using Nat.strongRecOn generalizing s with
  | ind n ih =>
    intro as w hI
    have hs := hstep as w s hI
    rw [collect_eq h]
    cases hrun : step s with
    | error e =>
      rw [hrun] at hs
      exact hs.of_error
    | ok br =>
      rw [hrun] at hs
      obtain ⟨_ | a, r⟩ := br <;> obtain ⟨ts, rfl, hok⟩ := hs
      · exact ⟨ts, rfl, by simpa using hok⟩
      · have hrest := ih _ (hn ▸ h.takes hrun) r rfl _ _ hok
        refine Passes.push (hrest.bind (fun v hv => ⟨[], by simpa using hv⟩) ?_)
        exact fun bs v r' hbs => passes_pure (by simpa using hbs)

theorem Meets.forward {p : Parser α} (h : Meets p ok whole) : Forward p := by
  intro s r a hrun
  have hs := h s
  rw [hrun] at hs
  obtain ⟨ts, rfl, -⟩ := hs
  simp

/-- A list passes when its items do: it is read from the words of the
items with a separator between any two of them. What an item is read as is
given by a ghost `g`, of which it is the image. -/
theorem separated_meets {γ : Type} {item : Parser α} {separator : Token.Kind}
    (hsep : separator.isOpen = false) {image : γ → α} {word : γ → List Terminal} {good fair : γ → Prop}
    (hfair : ∀ g, good g → fair g)
    (h : Meets item (fun a w _ => ∃ g, image g = a ∧ word g = w ∧ good g)
      (fun w => ∃ g, word g = w ∧ fair g)) :
    Meets (separated separator item)
      (fun as w _ => ∃ gs : List γ, gs ≠ [] ∧ gs.map image = as ∧
        joined separator (gs.map word) = w ∧ ∀ g ∈ gs, good g)
      (fun w => ∃ gs : List γ, gs ≠ [] ∧ joined separator (gs.map word) = w ∧ ∀ g ∈ gs, fair g) := by
  intro s
  refine (h s).bind ?_ ?_
  · intro w hw
    obtain ⟨g, rfl, hg⟩ := hw
    exact ⟨[], [g], by simp, by simp [joined], by simpa using hg⟩
  · intro a w r hread
    obtain ⟨g, rfl, rfl, hg⟩ := hread
    -- collected so far: the ghosts behind the first, their images and their words
    let I : Reads (List α) := fun as v _ => ∃ gs : List γ, gs.map image = as ∧
      joined separator ((g :: gs).map word) = word g ++ v ∧ ∀ g ∈ gs, good g
    have hI : I [] [] r := ⟨[], rfl, by simp [joined], by simp⟩
    refine (passes_collect I (fun v => ∃ gs : List γ, gs ≠ [] ∧
      joined separator (gs.map word) = word g ++ v ∧ ∀ g ∈ gs, fair g) I
      (repeatable_nextItem h.forward) ?_ r [] [] hI).bind ?_ ?_
    · intro as v s hread
      obtain ⟨gs, rfl, hv, hgs⟩ := hread
      refine passes_accept_bind hsep (fun r _ => (h r).bind ?_ ?_) fun _ => ?_
      · intro w hw
        obtain ⟨g', rfl, hg'⟩ := hw
        refine ⟨[], g :: gs ++ [g'], by simp, ?_, ?_⟩
        · rw [List.map_append, List.map_singleton, joined_concat _ (by simp), hv]
          simp
        · refine List.forall_mem_append.mpr ⟨fun x hx => hfair x ?_, by simpa using hg'⟩
          exact List.forall_mem_cons.mpr ⟨hg, hgs⟩ x hx
      · intro a w r' hread
        obtain ⟨g', rfl, rfl, hg'⟩ := hread
        refine passes_pure ⟨gs ++ [g'], by simp, ?_, ?_⟩
        · rw [← List.cons_append, List.map_append, List.map_singleton, joined_concat _ (by simp), hv]
          simp
        · exact List.forall_mem_append.mpr ⟨hgs, by simpa using hg'⟩
      · exact passes_pure ⟨gs, rfl, by simpa using hv, hgs⟩
    · intro v hw
      obtain ⟨gs, hne, hv, hgs⟩ := hw
      exact ⟨[], gs, hne, by simpa using hv, hgs⟩
    · intro as v r' hread
      obtain ⟨gs, rfl, hv, hgs⟩ := hread
      refine passes_pure ⟨g :: gs, by simp, by simp, by simpa using hv, ?_⟩
      simpa using ⟨hg, hgs⟩

end Grammar
end SyntaxGraph
