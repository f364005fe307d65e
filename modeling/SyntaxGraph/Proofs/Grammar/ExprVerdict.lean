/-
# What the grammar of expressions reads

Every part of the grammar of expressions reads a phrase: one that fits the
part, keeps the rules, opens no more levels than are left, and does not end in a
`not` that could take in the connective behind it. Where a part fails, what it
has taken begins such a phrase.

Key definitions: `Grammar.ReadsPhrase`, `Grammar.IsPhrase`, `Grammar.Level.Sound`.
Key theorems: `Grammar.condition_meets`, `Grammar.expression_meets`,
`Grammar.sound_level`.
-/
import SyntaxGraph.Proofs.Grammar.Operators
import SyntaxGraph.Proofs.Grammar.Verdict

namespace SyntaxGraph
namespace Grammar

open TokenStream

/-- No connective is in front of which the phrase would take in. -/
def Closed (e : Phrase) (s : TokenStream) : Prop :=
  e.endsInNot = true → ∀ op : Connective, s.next ≠ some op.kind

/-- A phrase that fits `p` with at most `n` levels is read in front of `s`. -/
structure Stands (p : Precedence) (n : Nat) (e : Phrase) (s : TokenStream) : Prop where
  fits : e.Fits p
  grammatical : e.Grammatical
  levels : e.levels ≤ n
  closed : Closed e s

/-- No connective is in front that would go on with a phrase of the
precedence `p`. -/
def Stops (p : Precedence) (s : TokenStream) : Prop :=
  ∀ op : Connective, p.rank ≤ op.precedence.rank → s.next ≠ some op.kind

/-- The expression is read as a phrase, up to where that can go. -/
def ReadsPhrase (p : Precedence) (n : Nat) : Reads Expr := fun a w s =>
  ∃ e : Phrase, e.tree = a ∧ e.yield = w ∧ Stands p n e s ∧ Stops p s

/-- The word is a phrase that fits `p`. -/
def IsPhrase (p : Precedence) (w : List Terminal) : Prop :=
  ∃ e : Phrase, e.yield = w ∧ e.Fits p ∧ e.Grammatical

theorem Stands.loosen {p q : Precedence} {n : Nat} {e : Phrase} {s : TokenStream}
    (h : Stands p n e s) (hq : q.rank ≤ p.rank) : Stands q n e s :=
  ⟨h.fits.of_rank_le hq, h.grammatical, h.levels, h.closed⟩

theorem stops_of_rank_le {p : Precedence} {s : TokenStream}
    (h : Precedence.negation.rank ≤ p.rank) : Stops p s := by
  intro op hop
  have hloose : op.precedence.rank < Precedence.negation.rank := by cases op <;> decide
  omega

theorem IsPhrase.loosen {p q : Precedence} {w : List Terminal} (h : IsPhrase p w)
    (hq : q.rank ≤ p.rank) : IsPhrase q w := by
  obtain ⟨e, hw, hfits, he⟩ := h
  exact ⟨e, hw, hfits.of_rank_le hq, he⟩

theorem closed_of_fits {e : Phrase} {s : TokenStream} (h : e.Fits .comparison) : Closed e s :=
  fun hnot => by simp [h.endsInNot_eq_false] at hnot

theorem reads_primary {n : Nat} {e : Phrase} {s : TokenStream} (hp : e.precedence = .primary)
    (hg : e.Grammatical) (hn : e.levels ≤ n) : ReadsPhrase .primary n e.tree e.yield s :=
  ⟨e, rfl, rfl, ⟨Phrase.fits_of_primary hp _, hg, hn, closed_of_fits (Phrase.fits_of_primary hp _)⟩,
    stops_of_rank_le (by decide)⟩

theorem isPhrase_ident (p : Precedence) (x : String) : IsPhrase p [.ident x] :=
  ⟨.var x, rfl, Phrase.fits_of_primary rfl p, trivial⟩

theorem exists_isPhrase (p : Precedence) : ∃ w, IsPhrase p w :=
  ⟨_, isPhrase_ident p "x"⟩

/-- The parts that start one level further down read phrases with at most `n`
levels. -/
structure Level.Sound (n : Nat) (next : Level) : Prop where
  condition : Meets next.condition (ReadsPhrase .disjunction n) (IsPhrase .disjunction)
  expression : Meets next.expression (ReadsPhrase .sum n) (IsPhrase .sum)
  signed : Meets next.signed (ReadsPhrase .sign n) (IsPhrase .sign)

/-- If there is a level further down, it leaves one of the `n` levels less. -/
def SoundBelow (n : Nat) (deeper : Option Level) : Prop :=
  ∀ next ∈ deeper, ∃ m, n = m + 1 ∧ Level.Sound m next

variable {limit n : Nat} {deeper : Option Level}

theorem meets_nested {α : Type} {part : Level → Parser α} {ok : Reads α}
    {whole : List Terminal → Prop} (hmiss : ∃ u, whole u)
    (h : ∀ next ∈ deeper, Meets (part next) ok whole) :
    Meets (nested limit deeper part) ok whole := by
  intro s
  cases deeper with
  | none => exact passes_unexpected hmiss
  | some next => exact h next rfl s

/-- The operand of a prefix is read with one of the levels less. -/
theorem operand_meets {p : Precedence} {part : Level → Parser Expr} (h : SoundBelow n deeper)
    (hpart : ∀ m next, Level.Sound m next → Meets (part next) (ReadsPhrase p m) (IsPhrase p)) :
    Meets (nested limit deeper part) (fun a w s => ∃ m, n = m + 1 ∧ ReadsPhrase p m a w s)
      (IsPhrase p) := by
  refine meets_nested (exists_isPhrase _) fun next hnext => ?_
  obtain ⟨m, rfl, hm⟩ := h next hnext
  intro s
  refine (hpart m next hm s).imp (fun a w r ha => ⟨m, rfl, ha⟩) fun w hw => ⟨[], ?_⟩
  rwa [List.append_nil]

/-- What is read as a tight phrase is read as a looser one that no connective
goes on with. -/
theorem passes_loosen {p q : Precedence} {s : TokenStream}
    {o : Except ParseError (Expr × TokenStream)} (h : Passes s (ReadsPhrase p n) (IsPhrase p) o)
    (hq : q.rank ≤ p.rank) (hstops : Precedence.negation.rank ≤ q.rank) :
    Passes s (ReadsPhrase q n) (IsPhrase q) o := by
  refine h.imp ?_ fun w hw => ⟨[], ?_⟩
  · intro a w r hread
    obtain ⟨e, ha, hw, he, -⟩ := hread
    exact ⟨e, ha, hw, he.loosen hq, stops_of_rank_le hstops⟩
  · rw [List.append_nil]
    exact hw.loosen hq

/-! ### Primaries -/

section

variable {next : Level} {m : Nat}

/-- The arguments are read as phrases with commas in between. -/
theorem arguments_meets (h : next.Sound m) : Meets (arguments next)
    (fun as w _ => ∃ es : List Phrase, es.map Phrase.tree = as ∧
      joined .comma (es.map Phrase.yield) = w ∧ ∀ e ∈ es, (e.Fits .sum ∧ e.Grammatical) ∧ e.levels ≤ m)
    (fun w => ∃ es : List Phrase, joined .comma (es.map Phrase.yield) = w ∧
      ∀ e ∈ es, e.Fits .sum ∧ e.Grammatical) := by
  intro s
  refine passes_peek_bind ?_
  split
  · exact passes_pure ⟨[], rfl, rfl, by simp⟩
  · have hitem : Meets next.expression
        (fun a w _ => ∃ e : Phrase, e.tree = a ∧ e.yield = w ∧
          (e.Fits .sum ∧ e.Grammatical) ∧ e.levels ≤ m)
        (fun w => ∃ e : Phrase, e.yield = w ∧ e.Fits .sum ∧ e.Grammatical) := fun s =>
      (h.expression s).imp
        (fun a w r ⟨e, ha, hw, he, _⟩ => ⟨e, ha, hw, ⟨he.fits, he.grammatical⟩, he.levels⟩)
        fun w hw => ⟨[], by rw [List.append_nil]; exact hw⟩
    refine (separated_meets rfl (fun e he => he.1) hitem s).imp ?_ ?_
    · intro as w r hread
      obtain ⟨es, -, has, hw, hes⟩ := hread
      exact ⟨es, has, hw, hes⟩
    · intro w hw
      obtain ⟨es, -, hw, hes⟩ := hw
      exact ⟨[], es, by simpa using hw, hes⟩

/-- A name with what follows it is read as a call, an entry or a variable. -/
theorem named_meets (h : next.Sound m) (x : String) : Meets (named next x)
    (fun a w s => ReadsPhrase .primary (m + 1) a (.ident x :: w) s)
    (fun w => IsPhrase .primary (.ident x :: w)) := by
  intro s
  refine passes_accept_bind rfl (fun r _ => ?_) fun _ =>
    passes_accept_bind rfl (fun r _ => ?_) fun _ => ?_
  · refine (arguments_meets h r).bind ?_ ?_
    · intro w hw
      obtain ⟨es, rfl, hes⟩ := hw
      exact ⟨[.word .rParen], .call x es, by simp [Phrase.yield], Phrase.fits_of_primary rfl _,
        by simpa [Phrase.Grammatical] using hes⟩
    · intro as w r hread
      obtain ⟨es, rfl, rfl, hes⟩ := hread
      have hgram : (Phrase.call x es).Grammatical := by
        simpa [Phrase.Grammatical] using fun e he => (hes e he).1
      refine passes_expect_bind rfl ⟨[.word .rParen], .call x es, by simp [Phrase.yield],
        Phrase.fits_of_primary rfl _, hgram⟩ fun t r => ?_
      have hlevels : (Phrase.call x es).levels ≤ m + 1 := by
        simpa [Phrase.levels] using fun e he => (hes e he).2
      refine passes_pure ?_
      simpa [Phrase.tree, Phrase.yield] using reads_primary (s := r) rfl hgram hlevels
  · refine (h.expression r).bind ?_ ?_
    · intro w hw
      obtain ⟨i, rfl, hi⟩ := hw
      exact ⟨[.word .rBracket], .entry x i, by simp [Phrase.yield], Phrase.fits_of_primary rfl _, hi⟩
    · intro a w r hread
      obtain ⟨i, rfl, rfl, hi, -⟩ := hread
      have hgram : (Phrase.entry x i).Grammatical := ⟨hi.fits, hi.grammatical⟩
      refine passes_expect_bind rfl ⟨[.word .rBracket], .entry x i, by simp [Phrase.yield],
        Phrase.fits_of_primary rfl _, hgram⟩ fun t r => ?_
      refine passes_pure ?_
      simpa [Phrase.tree, Phrase.yield] using
        reads_primary (s := r) rfl hgram (Nat.succ_le_succ hi.levels)
  · exact passes_pure (reads_primary (e := .var x) rfl trivial (Nat.le_add_left 1 m))

/-- A literal is read as the number it stands for; if it stands for none, it is
the one to blame. -/
theorem integer_passes (t : Token) (ht : t.kind = .intLiteral) (s : TokenStream) :
    Passes s (fun a w s => ReadsPhrase .primary (m + 1) a (t.terminal :: w) s)
      (fun w => IsPhrase .primary (t.terminal :: w)) (integer t s) := by
  unfold integer
  cases hi : Decimal.readInt t.text.toList with
  | some i =>
    rw [Token.terminal_int ht]
    exact passes_pure (reads_primary (e := .int t.text i) rfl hi (Nat.le_add_left 1 m))
  | none => exact .inl ⟨t, rfl, fun hread => by simpa [hi] using hread.1 ht⟩

theorem float_passes (t : Token) (ht : t.kind = .floatLiteral) (s : TokenStream) :
    Passes s (fun a w s => ReadsPhrase .primary (m + 1) a (t.terminal :: w) s)
      (fun w => IsPhrase .primary (t.terminal :: w)) (float t s) := by
  unfold float
  cases hx : Decimal.readFloat t.text.toList with
  | some x =>
    rw [Token.terminal_float ht]
    exact passes_pure (reads_primary (e := .float t.text x) rfl hx (Nat.le_add_left 1 m))
  | none => exact .inl ⟨t, rfl, fun hread => by simpa [hx] using hread.2 ht⟩

theorem primaryWithin_meets (h : next.Sound m) :
    Meets (primaryWithin next) (ReadsPhrase .primary (m + 1)) (IsPhrase .primary) := by
  intro s
  refine passes_accept?_bind (fun t r ht _ => integer_passes t ht r) fun _ => ?_
  refine passes_accept?_bind (fun t r ht _ => float_passes t ht r) fun _ => ?_
  refine passes_accept?_bind (fun t r ht _ => ?_) fun _ => ?_
  · rw [Token.terminal_ident ht]
    exact named_meets h t.text r
  refine passes_accept_bind rfl (fun r _ => (h.condition r).bind ?_ ?_) fun _ =>
    passes_unexpected (exists_isPhrase _)
  · intro w hw
    obtain ⟨e, rfl, -, he⟩ := hw
    exact ⟨[.word .rParen], .parens e, by simp [Phrase.yield], Phrase.fits_of_primary rfl _, he⟩
  · intro a w r hread
    obtain ⟨e, rfl, rfl, he, -⟩ := hread
    refine passes_expect_bind rfl ⟨[.word .rParen], .parens e, by simp [Phrase.yield],
      Phrase.fits_of_primary rfl _, he.grammatical⟩ fun t r => passes_pure ?_
    simpa [Phrase.tree, Phrase.yield] using
      reads_primary (e := .parens e) (s := r) rfl he.grammatical (Nat.succ_le_succ he.levels)

end

theorem primary_meets (h : SoundBelow n deeper) :
    Meets (primary limit deeper) (ReadsPhrase .primary n) (IsPhrase .primary) := by
  refine meets_nested (exists_isPhrase _) fun next hnext => ?_
  obtain ⟨m, rfl, hm⟩ := h next hnext
  exact primaryWithin_meets hm

/-! ### Signs -/

theorem signed_meets (h : SoundBelow n deeper) :
    Meets (signed limit deeper) (ReadsPhrase .sign n) (IsPhrase .sign) := by
  intro s
  refine passes_choose_bind (fun t sign r hsign _ => ?_) fun _ => ?_
  · rw [signOf_eq_some] at hsign
    rw [Token.terminal_of_kind (k := sign.kind) (by cases sign <;> rfl) hsign]
    refine (operand_meets h (fun m next hm => hm.signed) r).bind ?_ ?_
    · intro w hw
      obtain ⟨e, rfl, hfits, he⟩ := hw
      exact ⟨[], .signed sign e, by simp [Phrase.yield], by simp [Phrase.Fits, Phrase.precedence],
        hfits, he⟩
    · intro a w r hread
      obtain ⟨m, rfl, e, rfl, rfl, he, -⟩ := hread
      have hfits : (Phrase.signed sign e).Fits .sign := Nat.le_refl _
      exact passes_pure ⟨.signed sign e, rfl, by simp [Phrase.yield],
        ⟨hfits, ⟨he.fits, he.grammatical⟩, Nat.succ_le_succ he.levels,
          closed_of_fits (hfits.of_rank_le (by decide))⟩, stops_of_rank_le (by decide)⟩
  · exact passes_loosen (primary_meets h s) (by decide) (by decide)

/-! ### Operators that group to the left -/

theorem Stands.endsInNot_eq_false {o : Operators} {op : o.Op} {l : Phrase} {s : TokenStream}
    (hl : Stands (o.precedence op) n l s) (hs : s.next = some (o.kind op)) : l.endsInNot = false := by
  refine Bool.eq_false_iff.mpr fun hnot => ?_
  obtain ⟨c, hc⟩ := o.takes op l hl.fits hnot
  exact hl.closed hnot c (hs.trans (congrArg some hc))

/-- Operands with operators in between are read as one phrase. -/
theorem chained_meets {o : Operators} {p : Precedence} {f : Token.Kind → Option o.Op}
    {operand : Parser Expr} (hf : ∀ k op, f k = some op → k = o.kind op ∧ o.precedence op = p)
    (hstops : ∀ s : TokenStream, (∀ k, s.next = some k → f k = none) → Stops p.tighter s → Stops p s)
    (hp : p.rank ≤ p.tighter.rank)
    (h : Meets operand (ReadsPhrase p.tighter n) (IsPhrase p.tighter)) :
    Meets (chained o.join (choose f) operand) (ReadsPhrase p n) (IsPhrase p) := by
  intro s
  refine (h s).bind (fun w hw => ⟨[], by rw [List.append_nil]; exact hw.loosen hp⟩) ?_
  intro first w₀ r hread
  obtain ⟨e₀, hfirst, hw₀, he₀, hr⟩ := hread
  -- what was read so far is one phrase, and a whole in itself
  let I : Reads (List (o.Op × Expr)) := fun others w s => ∃ e : Phrase,
    e.tree = others.foldl (fun left (op, right) => o.join op left right) first ∧
      e.yield = w₀ ++ w ∧ Stands p n e s ∧ Stops p.tighter s
  have hI : I [] [] r := ⟨e₀, hfirst, by simpa using hw₀, he₀.loosen hp, hr⟩
  refine (passes_collect (fun others w s => I others w s ∧ Stops p s)
    (fun w => IsPhrase p (w₀ ++ w)) I
    (repeatable_nextOperand h.forward) ?_ r [] [] hI).bind ?_ ?_
  · intro others w s hread
    obtain ⟨l, hl, hlw, hls, hs⟩ := hread
    refine passes_choose_bind (fun t op r hop hst => ?_) fun hnone => ?_
    · obtain ⟨hk, rfl⟩ := hf _ _ hop
      have hnot := hls.endsInNot_eq_false (by rw [hst, next_push_cons, hk])
      have hnode : ∀ e : Phrase, e.Fits (o.precedence op).tighter → e.Grammatical →
          (o.node op l e).Grammatical := fun e hfits hgram =>
        (o.grammatical_node op l e).mpr ⟨hls.fits, hfits, hnot, hls.grammatical, hgram⟩
      rw [Token.terminal_of_kind (o.isOpen_kind op) hk]
      refine (h r).bind ?_ ?_
      · intro v hw
        obtain ⟨e, rfl, hfits, hgram⟩ := hw
        exact ⟨[], o.node op l e, by simp [o.yield_node, hlw], Operators.fits_node,
          hnode e hfits hgram⟩
      · intro a v r' hread
        obtain ⟨e, rfl, rfl, he, hr'⟩ := hread
        refine passes_pure ⟨o.node op l e, by simp [o.tree_node, hl], by simp [o.yield_node, hlw],
          ⟨Operators.fits_node, hnode e he.fits he.grammatical, ?_, ?_⟩, hr'⟩
        · rw [o.levels_node]
          exact Nat.max_le.mpr ⟨hls.levels, he.levels⟩
        · exact fun hends => he.closed (o.endsInNot_node op l e hends)
    · exact passes_pure ⟨⟨l, hl, by simpa using hlw, hls, hs⟩, hstops s hnone hs⟩
  · exact fun w hw => ⟨[], by simpa using hw⟩
  · intro others w r hread
    obtain ⟨⟨e, he, hew, hes, -⟩, hr⟩ := hread
    exact passes_pure ⟨e, he, by simpa using hew, hes, hr⟩

theorem product_meets (h : SoundBelow n deeper) :
    Meets (product limit deeper) (ReadsPhrase .product n) (IsPhrase .product) :=
  chained_meets (o := .arithmetic) (fun _ _ => productOperator_eq_some.mp)
    (fun _ _ _ => stops_of_rank_le (by decide)) (by decide) (signed_meets h)

theorem expression_meets (h : SoundBelow n deeper) :
    Meets (expression limit deeper) (ReadsPhrase .sum n) (IsPhrase .sum) :=
  chained_meets (o := .arithmetic) (fun _ _ => sumOperator_eq_some.mp)
    (fun _ _ _ => stops_of_rank_le (by decide)) (by decide) (product_meets h)

/-! ### Conditions -/

theorem comparison_meets (h : SoundBelow n deeper) :
    Meets (comparison limit deeper) (ReadsPhrase .comparison n) (IsPhrase .comparison) := by
  intro s
  refine (expression_meets h s).bind ?_ ?_
  · exact fun w hw => ⟨[], by rw [List.append_nil]; exact hw.loosen (by decide)⟩
  intro left w r hread
  obtain ⟨l, rfl, rfl, hl, -⟩ := hread
  refine passes_choose_bind (fun t op r hop _ => ?_) fun _ => ?_
  · rw [comparisonOf_eq_some] at hop
    rw [Token.terminal_of_kind (k := op.kind) (by cases op <;> rfl) hop]
    refine (expression_meets h r).bind ?_ ?_
    · intro v hw
      obtain ⟨e, rfl, hfits, he⟩ := hw
      exact ⟨[], .compare op l e, by simp [Phrase.yield], by simp [Phrase.Fits, Phrase.precedence],
        hl.fits, hfits, hl.grammatical, he⟩
    · intro right v r hread
      obtain ⟨e, rfl, rfl, he, -⟩ := hread
      have hgram : (Phrase.compare op l e).Grammatical :=
        ⟨hl.fits, he.fits, hl.grammatical, he.grammatical⟩
      have hfits : (Phrase.compare op l e).Fits .comparison := Nat.le_refl _
      refine passes_peek_bind ?_
      split
      · exact passes_unexpected ⟨[], .compare op l e, by simp [Phrase.yield], hfits, hgram⟩
      · exact passes_pure ⟨.compare op l e, rfl, by simp [Phrase.yield],
          ⟨hfits, hgram, Nat.max_le.mpr ⟨hl.levels, he.levels⟩, closed_of_fits hfits⟩,
          stops_of_rank_le (by decide)⟩
  · exact passes_pure ⟨l, rfl, by simp, hl.loosen (by decide), stops_of_rank_le (by decide)⟩

/-- The condition behind a `not` goes on as long as it can, so that no
connective is left in front. -/
theorem negation_meets (h : SoundBelow n deeper) :
    Meets (negation limit deeper) (ReadsPhrase .negation n) (IsPhrase .negation) := by
  intro s
  refine passes_accept_bind rfl (fun r _ => ?_) fun _ => ?_
  · refine (operand_meets h (fun m next hm => hm.condition) r).bind ?_ ?_
    · intro w hw
      obtain ⟨e, rfl, -, he⟩ := hw
      exact ⟨[], .not e, by simp [Phrase.yield], by simp [Phrase.Fits, Phrase.precedence], he⟩
    · intro a w r hread
      obtain ⟨m, rfl, e, rfl, rfl, he, hstops⟩ := hread
      exact passes_pure ⟨.not e, rfl, by simp [Phrase.yield],
        ⟨Nat.le_refl _, he.grammatical, Nat.succ_le_succ he.levels,
          fun _ op => hstops op (Nat.zero_le _)⟩, stops_of_rank_le (by decide)⟩
  · exact passes_loosen (comparison_meets h s) (by decide) (by decide)

theorem connective_eq_some {p : Precedence} (op : Connective) (hp : op.precedence = p)
    {k : Token.Kind} {c : Connective} :
    (if k = op.kind then some op else none) = some c ↔ k = c.kind ∧ c.precedence = p := by
  subst hp
  by_cases hk : k = op.kind
  · subst hk
    cases op <;> cases c <;> decide
  · simp only [if_neg hk, reduceCtorEq, false_iff, not_and]
    rintro rfl hc
    cases op <;> cases c <;> simp_all [Connective.precedence]

theorem conjunction_meets (h : SoundBelow n deeper) :
    Meets (conjunction limit deeper) (ReadsPhrase .conjunction n) (IsPhrase .conjunction) := by
  rw [conjunction, connective_eq]
  refine chained_meets (o := .connectives)
    (fun _ _ hop => (connective_eq_some .and rfl).mp hop) ?_ (by decide) (negation_meets h)
  intro s hnone _ op hop hnext
  cases op with
  | and => exact absurd (hnone _ hnext) (by simp [Connective.kind])
  | or => exact absurd hop (by decide)

theorem condition_meets (h : SoundBelow n deeper) :
    Meets (condition limit deeper) (ReadsPhrase .disjunction n) (IsPhrase .disjunction) := by
  rw [condition, connective_eq]
  refine chained_meets (o := .connectives)
    (fun _ _ hop => (connective_eq_some .or rfl).mp hop) ?_ (by decide) (conjunction_meets h)
  intro s hnone hs op _ hnext
  cases op with
  | and => exact hs .and (by decide) hnext
  | or => exact absurd (hnone _ hnext) (by simp [Connective.kind])

/-- **The grammar of expressions with `n` levels left reads phrases with at
most `n` levels.** -/
theorem sound_level (limit : Nat) : ∀ n, SoundBelow n (level limit n)
  | 0 => by simp [SoundBelow, level]
  | n + 1 => by
    have h := sound_level limit n
    rintro next ⟨⟩
    exact ⟨n, rfl, condition_meets h, expression_meets h, signed_meets h⟩

end Grammar
end SyntaxGraph
