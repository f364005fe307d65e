/-
# How phrases are read

A phrase that keeps the rules, opens no more levels than are left and is over
at what is behind it is read by every part of the grammar that it fits, as the
expression it stands for and to its end.

Key definitions: `Grammar.Parses`, `Grammar.Level.Complete`.
Key theorems: `Grammar.chained_parses`, `Grammar.condition_parses`,
`Grammar.complete_level`.
-/
import SyntaxGraph.Proofs.Grammar.Border
import SyntaxGraph.Proofs.Grammar.ExprVerdict

namespace SyntaxGraph
namespace Grammar

open TokenStream

/-- The part reads the phrases that fit `p` with at most `n` levels, up to
where they are over. -/
def Parses (part : Parser Expr) (p : Precedence) (n : Nat) : Prop :=
  ∀ (e : Phrase) (ts : List Token) (s : TokenStream), Stands p n e s → s.Settled → Over p s →
    terminals ts = e.yield → part (s.push ts) = .ok (e.tree, s)

/-- The parts that start one level further down read the phrases with at most
`n` levels. -/
structure Level.Complete (n : Nat) (next : Level) : Prop where
  condition : Parses next.condition .disjunction n
  expression : Parses next.expression .sum n
  signed : Parses next.signed .sign n

/-- With levels left there is a level further down. -/
def CompleteBelow (n : Nat) (deeper : Option Level) : Prop :=
  ∀ m, n = m + 1 → ∃ next, deeper = some next ∧ next.Sound m ∧ next.Complete m

theorem Stands.exists_levels {p : Precedence} {n : Nat} {e : Phrase} {s : TokenStream}
    (h : Stands p n e s) : ∃ m, n = m + 1 :=
  Nat.exists_eq_add_one.mpr (Nat.lt_of_lt_of_le e.one_le_levels h.levels)

theorem Clear.stands {p : Precedence} {n : Nat} {e : Phrase} {s : TokenStream} (h : Clear s)
    (hfits : e.Fits p) (hg : e.Grammatical) (hn : e.levels ≤ n) : Stands p n e s :=
  ⟨hfits, hg, hn, fun _ op => h.next_ne (by simp [op.binds_kind])⟩

theorem Parses.of_clear {part : Parser Expr} {p : Precedence} {n : Nat} (h : Parses part p n)
    {e : Phrase} {ts : List Token} {s : TokenStream} (hs : Clear s) (hfits : e.Fits p)
    (hg : e.Grammatical) (hn : e.levels ≤ n) (hts : terminals ts = e.yield) :
    part (s.push ts) = .ok (e.tree, s) :=
  h e ts s (hs.stands hfits hg hn) hs.settled (hs.over p) hts

variable {limit n : Nat} {deeper : Option Level}

/-! ### Lists -/

section

variable {α γ : Type} {item : Parser α} {separator : Token.Kind} {image : γ → α}
  {word : γ → List Terminal}

/-- In front of a settled stream of this sort, the word is read as `a`. -/
def ParsesAs (item : Parser α) (front : TokenStream → Prop) (w : List Terminal) (a : α) : Prop :=
  ∀ ts s, s.Settled → front s → terminals ts = w → item (s.push ts) = .ok (a, s)

/-- The items behind the first are read one by one, each in front of a separator
or of what is behind the list. -/
theorem nextItems_parse (front : TokenStream → Prop) (hforward : Forward item)
    (hfront : ∀ t ts s, t.kind = separator → front (push (t :: ts) s)) :
    ∀ (gs : List γ) (ts : List Token) (s : TokenStream),
      (∀ g ∈ gs, ParsesAs item front (word g) (image g)) →
      s.Settled → front s → s.next ≠ some separator →
      terminals ts = (gs.map word).flatMap (.word separator :: ·) →
      (s.push ts).Settled ∧ front (s.push ts) ∧
        collect (nextItem separator item) (s.push ts) = .ok (gs.map image, s)
  | [], ts, s, _, hs, hf, hne, hts => by
    obtain rfl := terminals_eq_nil (w := ts) (by simpa using hts)
    refine ⟨hs, hf, collect_none (repeatable_nextItem hforward) ?_⟩
    rw [push_nil, nextItem, accept_else hne]
    rfl
  | g :: gs, ts, s, hitem, hs, hf, hne, hts => by
    obtain ⟨t, _, rfl, ht, hrest⟩ := terminals_eq_cons (w := ts) (v := word g ++ _) (by simpa using hts)
    obtain ⟨us, vs, rfl, hus, hvs⟩ := terminals_eq_append hrest
    have hk : t.kind = separator := kind_of_terminal ht
    obtain ⟨hr, hrf, hcollect⟩ := nextItems_parse front hforward hfront gs vs s
      (fun x hx => hitem x (List.mem_cons_of_mem _ hx)) hs hf hne hvs
    have hstep : nextItem separator item (s.push (t :: (us ++ vs))) =
        .ok (some (image g), s.push vs) := by
      rw [push_cons, ← push_push us, nextItem, accept_then hk (hr.push us)]
      exact bind_of_ok (hitem g (List.mem_cons_self ..) us _ hr hrf hus)
    exact ⟨settled_of_ne_nil (by simp), hfront _ _ _ hk,
      collect_some (repeatable_nextItem hforward) hstep hcollect⟩

/-- Items with separators in between are read when each of them is, in
front of a separator and in front of what is behind the list. -/
theorem separated_parses (front : TokenStream → Prop) (hforward : Forward item)
    (hfront : ∀ t ts s, t.kind = separator → front (push (t :: ts) s)) {g : γ} {gs : List γ}
    {ts : List Token} {s : TokenStream}
    (hitem : ∀ x ∈ g :: gs, ParsesAs item front (word x) (image x))
    (hs : s.Settled) (hf : front s) (hne : s.next ≠ some separator)
    (hts : terminals ts = joined separator ((g :: gs).map word)) :
    separated separator item (s.push ts) = .ok ((g :: gs).map image, s) := by
  obtain ⟨us, vs, rfl, hus, hvs⟩ := terminals_eq_append (w := ts) hts
  obtain ⟨hr, hrf, hcollect⟩ := nextItems_parse front hforward hfront gs vs s
    (fun x hx => hitem x (List.mem_cons_of_mem _ hx)) hs hf hne hvs
  rw [← push_push, separated, bind_of_ok (hitem g (List.mem_cons_self ..) us _ hr hrf hus)]
  exact bind_of_ok hcollect

end

/-! ### Primaries -/

section

variable {next : Level} {m : Nat}

/-- Arguments are read up to the parenthesis behind them. -/
theorem arguments_parses (hsound : next.Sound m) (h : next.Complete m) {es : List Phrase}
    {ts : List Token} {t : Token} {s : TokenStream} (ht : t.kind = .rParen)
    (hes : ∀ e ∈ es, (e.Fits .sum ∧ e.Grammatical) ∧ e.levels ≤ m)
    (hts : terminals ts = joined .comma (es.map Phrase.yield)) :
    arguments next (s.push (ts ++ [t])) = .ok (es.map Phrase.tree, s.push [t]) := by
  have hclear : Clear (s.push [t]) := clear_push (by simp [ht, Token.Kind.binds])
  rw [← push_push, arguments, bind_of_ok (peek_run _ _)]
  cases es with
  | nil =>
    obtain rfl := terminals_eq_nil (w := ts) (by simpa [joined] using hts)
    simp [ht, pure_run]
  | cons e es =>
    have hopen : ((s.push [t]).push ts).next.any (· = .rParen) = false := by
      obtain ⟨he, -⟩ := hes e (by simp)
      obtain ⟨x, w, q, hw, hx, -⟩ := Phrase.opens_of_fits he.1 he.2
      obtain ⟨u, us, rfl, hu, -⟩ := terminals_eq_cons (w := ts) (x := x) (v := w ++ _)
        (by simpa [joined, hw] using hts)
      rw [← hu, Token.kind_terminal] at hx
      simp only [next_push_cons, Option.any_some, decide_eq_false_iff_not]
      intro hk
      simp [hk, Token.Kind.opens] at hx
    rw [hopen]
    refine separated_parses Clear hsound.expression.forward
      (fun t ts s ht => clear_push (by simp [ht, Token.Kind.binds])) ?_ hclear.settled hclear
      (by simp [ht]) hts
    intro x hx us r _ hr hus
    obtain ⟨hx, hxn⟩ := hes x hx
    exact h.expression.of_clear hr hx.1 hx.2 hxn hus

theorem named_call (hsound : next.Sound m) (h : next.Complete m) {name : String} {es : List Phrase}
    {ts : List Token} {t t' : Token} {s : TokenStream} (ht : t.kind = .lParen) (ht' : t'.kind = .rParen)
    (hes : ∀ e ∈ es, (e.Fits .sum ∧ e.Grammatical) ∧ e.levels ≤ m)
    (hts : terminals ts = joined .comma (es.map Phrase.yield)) (hs : s.Settled) :
    named next name (s.push (t :: (ts ++ [t']))) = .ok (.call name (es.map Phrase.tree), s) := by
  have hr : (s.push (ts ++ [t'])).Settled := settled_of_ne_nil (by simp)
  rw [push_cons, named, accept_then ht hr, bind_of_ok (arguments_parses hsound h ht' hes hts),
    bind_of_ok (expect_push ht' hs)]
  rfl

theorem named_entry (h : next.Complete m) {name : String} {i : Phrase} {ts : List Token}
    {t t' : Token} {s : TokenStream} (ht : t.kind = .lBracket) (ht' : t'.kind = .rBracket)
    (hi : i.Fits .sum ∧ i.Grammatical) (hin : i.levels ≤ m) (hts : terminals ts = i.yield)
    (hs : s.Settled) :
    named next name (s.push (t :: (ts ++ [t']))) = .ok (.entry name i.tree, s) := by
  have hr : (s.push (ts ++ [t'])).Settled := settled_of_ne_nil (by simp)
  have hclear : Clear (s.push [t']) := clear_push (by simp [ht', Token.Kind.binds])
  rw [push_cons, named, accept_else (by simp [ht]), accept_then ht hr, ← push_push,
    bind_of_ok (h.expression.of_clear hclear hi.1 hi.2 hin hts), bind_of_ok (expect_push ht' hs)]
  rfl

theorem named_var {name : String} {s : TokenStream} (hs : Over .primary s) :
    named next name s = .ok (.var name, s) := by
  have hne : ∀ k : Token.Kind, k.binds = some .primary → s.next ≠ some k := fun k hk hnext =>
    absurd (hs k hnext _ hk) (Nat.lt_irrefl _)
  rw [named, accept_else (hne _ rfl), accept_else (hne _ rfl)]
  rfl

theorem primaryWithin_int {t : Token} {s : TokenStream} (ht : t.kind = .intLiteral) (hs : s.Settled) :
    primaryWithin next (s.push [t]) = integer t s := by
  rw [primaryWithin, bind_of_ok (accept?_push ht hs)]

theorem primaryWithin_float {t : Token} {s : TokenStream} (ht : t.kind = .floatLiteral)
    (hs : s.Settled) : primaryWithin next (s.push [t]) = float t s := by
  rw [primaryWithin, bind_of_ok (accept?_none (by simp [ht]))]
  exact bind_of_ok (accept?_push ht hs)

theorem primaryWithin_ident {t : Token} {s : TokenStream} (ht : t.kind = .ident) (hs : s.Settled) :
    primaryWithin next (s.push [t]) = named next t.text s := by
  rw [primaryWithin, bind_of_ok (accept?_none (by simp [ht]))]
  refine (bind_of_ok (accept?_none (by simp [ht]))).trans ?_
  exact bind_of_ok (accept?_push ht hs)

theorem primaryWithin_parens {t : Token} {s : TokenStream} (ht : t.kind = .lParen) (hs : s.Settled) :
    primaryWithin next (s.push [t]) =
      (do let e ← next.condition; let _ ← expect .rParen .parenthesis; return e : Parser Expr) s := by
  rw [primaryWithin, bind_of_ok (accept?_none (by simp [ht]))]
  refine (bind_of_ok (accept?_none (by simp [ht]))).trans ?_
  refine (bind_of_ok (accept?_none (by simp [ht]))).trans ?_
  exact accept_then ht hs

theorem primaryWithin_parses (hsound : next.Sound m) (h : next.Complete m) :
    Parses (primaryWithin next) .primary (m + 1) := by
  intro e ts s he hs hover hts
  have hgram := he.grammatical
  cases e with
  | int text i =>
    obtain ⟨t, rfl, ht⟩ := terminals_eq_singleton hts
    have htext : t.text = text := text_of_terminal ht rfl
    have hread : Decimal.readInt text.toList = some i := hgram
    rw [primaryWithin_int (kind_of_terminal ht) hs, integer, htext, hread]
    rfl
  | float text x =>
    obtain ⟨t, rfl, ht⟩ := terminals_eq_singleton hts
    have htext : t.text = text := text_of_terminal ht rfl
    have hread : Decimal.readFloat text.toList = some x := hgram
    rw [primaryWithin_float (kind_of_terminal ht) hs, float, htext, hread]
    rfl
  | var x =>
    obtain ⟨t, rfl, ht⟩ := terminals_eq_singleton hts
    have htext : t.text = x := text_of_terminal ht rfl
    rw [primaryWithin_ident (kind_of_terminal ht) hs, htext, named_var hover]
    rfl
  | entry a i =>
    obtain ⟨t, _, rfl, ht, hrest⟩ := terminals_eq_cons hts
    obtain ⟨u, _, rfl, hu, hrest⟩ := terminals_eq_cons hrest
    obtain ⟨us, v, rfl, hus, hv⟩ := terminals_eq_concat_word hrest
    have htext : t.text = a := text_of_terminal ht rfl
    rw [push_cons, primaryWithin_ident (kind_of_terminal ht) (hs.push _), htext,
      named_entry h (kind_of_terminal hu) hv hgram (Nat.le_of_succ_le_succ he.levels) hus hs]
    rfl
  | call f es =>
    obtain ⟨t, _, rfl, ht, hrest⟩ := terminals_eq_cons hts
    obtain ⟨u, _, rfl, hu, hrest⟩ := terminals_eq_cons hrest
    obtain ⟨us, v, rfl, hus, hv⟩ := terminals_eq_concat_word hrest
    have htext : t.text = f := text_of_terminal ht rfl
    have hes : ∀ e ∈ es, (e.Fits .sum ∧ e.Grammatical) ∧ e.levels ≤ m := by
      have hlevels := he.levels
      simp only [Phrase.Grammatical, Phrase.allGrammatical_iff] at hgram
      simp only [Phrase.levels, Nat.add_le_add_iff_right, Phrase.levelsOfAll_le_iff] at hlevels
      exact fun e he => ⟨hgram e he, hlevels e he⟩
    rw [Phrase.yields_eq_map] at hus
    rw [push_cons, primaryWithin_ident (kind_of_terminal ht) (hs.push _), htext,
      named_call hsound h (kind_of_terminal hu) hv hes hus hs, Phrase.tree, Phrase.trees_eq_map]
  | parens e =>
    obtain ⟨t, _, rfl, ht, hrest⟩ := terminals_eq_cons hts
    obtain ⟨us, v, rfl, hus, hv⟩ := terminals_eq_concat_word hrest
    have hclear : Clear (s.push [v]) := clear_push (by simp [hv, Token.Kind.binds])
    have hcondition := h.condition.of_clear hclear e.fits_disjunction hgram
      (Nat.le_of_succ_le_succ he.levels) hus
    rw [push_cons, primaryWithin_parens (kind_of_terminal ht) (hs.push _), ← push_push,
      bind_of_ok hcondition, bind_of_ok (expect_push hv hs)]
    rfl
  | signed | arith op | compare | not | logical op =>
    have hfits := he.fits
    try cases op
    all_goals simp [Phrase.Fits, Phrase.precedence, Precedence.rank, Arith.precedence,
      Connective.precedence] at hfits

end

theorem primary_parses (h : CompleteBelow n deeper) : Parses (primary limit deeper) .primary n := by
  intro e ts s he
  obtain ⟨m, rfl⟩ := he.exists_levels
  obtain ⟨next, rfl, hsound, hcomplete⟩ := h m rfl
  exact primaryWithin_parses hsound hcomplete e ts s he

/-! ### Signs -/

/-- What stands in front of a phrase that fits `p` is no token that opens only
looser phrases. -/
theorem Stands.next_opens {p : Precedence} {e : Phrase} {ts : List Token} {s : TokenStream}
    (h : Stands p n e s) (hts : terminals ts = e.yield) :
    ∃ k q, (s.push ts).next = some k ∧ k.opens = some q ∧ p.rank ≤ q.rank := by
  obtain ⟨x, w, q, hw, hx, hq⟩ := Phrase.opens_of_fits h.fits h.grammatical
  obtain ⟨t, us, rfl, ht, -⟩ := terminals_eq_cons (hts.trans hw)
  exact ⟨t.kind, q, next_push_cons .., by rw [kind_of_terminal ht]; exact hx, hq⟩

theorem Stands.tighten {p : Precedence} {e : Phrase} {s : TokenStream} (h : Stands p n e s)
    (hne : e.precedence ≠ p) : Stands p.tighter n e s := by
  refine ⟨?_, h.grammatical, h.levels, h.closed⟩
  have hfits := h.fits
  revert hfits hne
  simp only [Phrase.Fits]
  cases e.precedence <;> cases p <;> decide

theorem signed_parses (h : CompleteBelow n deeper) : Parses (signed limit deeper) .sign n := by
  intro e ts s he hs hover hts
  by_cases hsign : e.precedence = .sign
  · obtain ⟨sign, e, rfl⟩ : ∃ sign e', e = .signed sign e' := by
      cases e with
      | signed sign e => exact ⟨sign, e, rfl⟩
      | arith op | logical op => cases op <;> cases hsign
      | _ => cases hsign
    obtain ⟨t, ts, rfl, ht, hts⟩ := terminals_eq_cons hts
    obtain ⟨m, rfl⟩ := he.exists_levels
    obtain ⟨next, rfl, -, hcomplete⟩ := h m rfl
    have hfits : e.Fits .sign := he.grammatical.1
    have hoperand : Stands .sign m e s := ⟨hfits, he.grammatical.2,
      Nat.le_of_succ_le_succ he.levels, closed_of_fits (hfits.of_rank_le (by decide))⟩
    have hk : signOf t.kind = some sign := signOf_eq_some.mpr (kind_of_terminal ht)
    rw [push_cons, signed, bind_of_ok (choose_push hk (hs.push ts))]
    exact bind_of_ok (hcomplete.signed e ts s hoperand hs hover hts)
  · have hprimary := he.tighten hsign
    obtain ⟨k, q, hk, hopens, hq⟩ := hprimary.next_opens hts
    have hnone : signOf k = none := by
      revert hopens hq
      cases k <;> cases q <;> decide
    rw [signed, bind_of_ok (choose_none (by simpa [hk] using hnone))]
    exact primary_parses h e ts s hprimary hs (hover.tighten (by decide)) hts

/-! ### Operators that group to the left -/

/-- Along the left spine of a phrase: its first operand is read, and then one
operator and operand after the other, before all that is read behind it. -/
theorem operands_parse {o : Operators} {p : Precedence} {f : Token.Kind → Option o.Op}
    {operand : Parser Expr} (hf : ∀ k op, f k = some op ↔ k = o.kind op ∧ o.precedence op = p)
    (hbinds : ∀ op, (o.kind op).binds = some (o.precedence op)) (hp : p.rank < p.tighter.rank)
    (hsome : ∃ op, o.precedence op = p) (hforward : Forward operand)
    (h : Parses operand p.tighter n) {as : List (o.Op × Expr)} {r : TokenStream} :
    ∀ (e : Phrase) (ts : List Token) (s : TokenStream), Stands p n e s → s.Settled →
      Over p.tighter s → terminals ts = e.yield →
      collect (nextOperand (choose f) operand) s = .ok (as, r) →
      ∃ first s' bs, operand (s.push ts) = .ok (first, s') ∧
        collect (nextOperand (choose f) operand) s' = .ok (bs ++ as, r) ∧
        bs.foldl (fun left (op, right) => o.join op left right) first = e.tree := by
  intro e ts
  induction hlen : ts.length using Nat.strongRecOn generalizing e ts as with
  | ind len ih =>
    intro s he hs hover hts hcollect
    obtain ⟨op₀, rfl⟩ := hsome
    rcases Operators.fits_cases he.fits with htight | ⟨op, l, e, rfl, hop⟩
    · have hoperand := h e ts s ⟨htight, he.grammatical, he.levels, he.closed⟩ hs hover hts
      exact ⟨e.tree, s, [], hoperand, hcollect, rfl⟩
    · obtain ⟨hlfits, hefits, hnot, hl, hg⟩ := (o.grammatical_node op l e).mp he.grammatical
      have hlevels := he.levels
      rw [o.levels_node, Nat.max_le] at hlevels
      rw [hop] at hlfits hefits
      obtain ⟨ls, t, us, rfl, hls, ht, hus⟩ := terminals_eq_append_word (hts.trans (o.yield_node op l e))
      have hright : Stands (o.precedence op₀).tighter n e s := ⟨hefits, hg, hlevels.2,
        fun hnot => he.closed (o.endsInNot_right op l e (hop ▸ hefits) hnot)⟩
      have hr : (s.push us).Settled := hs.push us
      have hstep : nextOperand (choose f) operand (s.push (t :: us)) = .ok (some (op, e.tree), s) := by
        rw [push_cons, nextOperand, bind_of_ok (choose_push ((hf _ _).mpr ⟨ht, hop⟩) hr)]
        exact bind_of_ok (h e us s hright hs hover hus)
      have hleft : Stands (o.precedence op₀) n l (s.push (t :: us)) := ⟨hlfits, hl, hlevels.1,
        fun hends => by simp [hnot] at hends⟩
      have hoverl : Over (o.precedence op₀).tighter (s.push (t :: us)) := by
        intro k hk q hq
        obtain rfl : t.kind = k := by simpa using hk
        rw [ht, hbinds, hop, Option.some.injEq] at hq
        exact hq ▸ hp
      have hrest := collect_some (repeatable_nextOperand hforward) hstep hcollect
      obtain ⟨first, s', bs, hfirst, hbs, hfold⟩ := ih ls.length (by simp [← hlen]) l ls rfl
        (s.push (t :: us)) hleft (settled_of_ne_nil (by simp)) hoverl hls hrest
      refine ⟨first, s', bs ++ [(op, e.tree)], by simpa using hfirst, by simpa using hbs, ?_⟩
      rw [List.foldl_append, hfold, o.tree_node]
      rfl

/-- A chain of operands is read as the phrase that groups it to the left. -/
theorem chained_parses {o : Operators} {p : Precedence} {f : Token.Kind → Option o.Op}
    {operand : Parser Expr} (hf : ∀ k op, f k = some op ↔ k = o.kind op ∧ o.precedence op = p)
    (hbinds : ∀ op, (o.kind op).binds = some (o.precedence op)) (hp : p.rank < p.tighter.rank)
    (hsome : ∃ op, o.precedence op = p) (hforward : Forward operand)
    (h : Parses operand p.tighter n) : Parses (chained o.join (choose f) operand) p n := by
  intro e ts s he hs hover hts
  have hnone : ∀ k ∈ s.next, f k = none := by
    refine fun k hk => Option.eq_none_iff_forall_ne_some.mpr fun op hop => ?_
    obtain ⟨rfl, hprec⟩ := (hf k op).mp hop
    exact absurd (hover _ hk _ (hbinds op)) (by rw [hprec]; exact Nat.lt_irrefl _)
  have hend : nextOperand (choose f) operand s = .ok (none, s) := bind_of_ok (choose_none hnone)
  obtain ⟨first, s', bs, hfirst, hbs, hfold⟩ := operands_parse hf hbinds hp hsome hforward h e ts s he
    hs (hover.tighten (Nat.le_of_lt hp)) hts
    (collect_none (repeatable_nextOperand hforward) hend)
  rw [chained, bind_of_ok hfirst]
  refine (bind_of_ok hbs).trans ?_
  rw [List.append_nil, hfold]
  rfl

theorem product_parses (hsound : SoundBelow n deeper) (h : CompleteBelow n deeper) :
    Parses (product limit deeper) .product n :=
  chained_parses (o := .arithmetic) (fun _ _ => productOperator_eq_some) Arith.binds_kind (by decide)
    ⟨.mul, rfl⟩ (signed_meets hsound).forward (signed_parses h)

theorem expression_parses (hsound : SoundBelow n deeper) (h : CompleteBelow n deeper) :
    Parses (expression limit deeper) .sum n :=
  chained_parses (o := .arithmetic) (fun _ _ => sumOperator_eq_some) Arith.binds_kind (by decide)
    ⟨.add, rfl⟩ (product_meets hsound).forward (product_parses hsound h)

/-! ### Conditions -/

theorem comparison_parses (hsound : SoundBelow n deeper) (h : CompleteBelow n deeper) :
    Parses (comparison limit deeper) .comparison n := by
  intro e ts s he hs hover hts
  have hnext : ∀ k, s.next = some k → comparisonOf k = none := by
    refine fun k hk => Option.eq_none_iff_forall_ne_some.mpr fun op hop => ?_
    obtain rfl := comparisonOf_eq_some.mp hop
    exact absurd (hover _ hk _ op.binds_kind) (Nat.lt_irrefl _)
  by_cases hcompare : e.precedence = .comparison
  · obtain ⟨op, l, r, rfl⟩ : ∃ op l r, e = .compare op l r := by
      cases e with
      | compare op l r => exact ⟨op, l, r, rfl⟩
      | arith op | logical op => cases op <;> cases hcompare
      | _ => cases hcompare
    obtain ⟨hlfits, hrfits, hl, hr⟩ := he.grammatical
    obtain ⟨hln, hrn⟩ := Nat.max_le.mp he.levels
    obtain ⟨ls, t, rs, rfl, hls, ht, hrs⟩ := terminals_eq_append_word hts
    have hleft : Stands .sum n l (s.push (t :: rs)) :=
      ⟨hlfits, hl, hln, closed_of_fits (hlfits.of_rank_le (by decide))⟩
    have hright : Stands .sum n r s := ⟨hrfits, hr, hrn, closed_of_fits (hrfits.of_rank_le (by decide))⟩
    have hoverl : Over .sum (s.push (t :: rs)) := by
      intro k hk q hq
      obtain rfl : t.kind = k := by simpa using hk
      rw [ht, op.binds_kind] at hq
      cases hq
      decide
    have hpeek : s.next.any (fun kind => (comparisonOf kind).isSome) = false := by
      cases hk : s.next with
      | none => rfl
      | some k => simp [hnext k hk]
    rw [← push_push, comparison, bind_of_ok (expression_parses hsound h l ls _ hleft
      (settled_of_ne_nil (by simp)) hoverl hls), push_cons,
      bind_of_ok (choose_push (comparisonOf_eq_some.mpr ht) (hs.push rs))]
    show (expression limit deeper >>= _) _ = _
    rw [bind_of_ok (expression_parses hsound h r rs s hright hs (hover.tighten (by decide)) hrs),
      bind_of_ok (peek_run _ s), hpeek]
    rfl
  · rw [comparison, bind_of_ok (expression_parses hsound h e ts s (he.tighten hcompare) hs
      (hover.tighten (by decide)) hts), bind_of_ok (choose_none hnext)]
    rfl

theorem negation_parses (hsound : SoundBelow n deeper) (h : CompleteBelow n deeper) :
    Parses (negation limit deeper) .negation n := by
  intro e ts s he hs hover hts
  by_cases hnot : e.precedence = .negation
  · obtain ⟨e, rfl⟩ : ∃ e', e = .not e' := by
      cases e with
      | not e => exact ⟨e, rfl⟩
      | arith op | logical op => cases op <;> cases hnot
      | _ => cases hnot
    obtain ⟨t, ts, rfl, ht, hts⟩ := terminals_eq_cons hts
    obtain ⟨m, rfl⟩ := he.exists_levels
    obtain ⟨next, rfl, -, hcomplete⟩ := h m rfl
    -- the operand is all that follows: not even a connective is in front
    have hclosed : ∀ op : Connective, s.next ≠ some op.kind := he.closed rfl
    have hovers : Over .disjunction s := by
      intro k hk q hq
      refine absurd hk ?_
      have hloose := hover k hk q hq
      revert hloose hq
      cases k <;> rintro ⟨⟩ hloose <;>
        first | exact hclosed .and | exact hclosed .or | exact absurd hloose (by decide)
    have hk : t.kind = .notWord := kind_of_terminal ht
    rw [push_cons, negation, accept_then hk (hs.push ts)]
    exact bind_of_ok (hcomplete.condition e ts s ⟨e.fits_disjunction, he.grammatical,
      Nat.le_of_succ_le_succ he.levels, fun _ => hclosed⟩ hs hovers hts)
  · have htight := he.tighten hnot
    obtain ⟨k, q, hk, hopens, hq⟩ := htight.next_opens hts
    have hne : k ≠ .notWord := by
      rintro rfl
      cases hopens
      exact absurd hq (by decide)
    rw [negation, accept_else (by simpa [hk] using hne)]
    exact comparison_parses hsound h e ts s htight hs (hover.tighten (by decide)) hts

theorem conjunction_parses (hsound : SoundBelow n deeper) (h : CompleteBelow n deeper) :
    Parses (conjunction limit deeper) .conjunction n := by
  rw [conjunction, connective_eq]
  exact chained_parses (o := .connectives) (fun _ _ => connective_eq_some .and rfl)
    Connective.binds_kind (by decide) ⟨.and, rfl⟩ (negation_meets hsound).forward
    (negation_parses hsound h)

theorem condition_parses (hsound : SoundBelow n deeper) (h : CompleteBelow n deeper) :
    Parses (condition limit deeper) .disjunction n := by
  rw [condition, connective_eq]
  exact chained_parses (o := .connectives) (fun _ _ => connective_eq_some .or rfl)
    Connective.binds_kind (by decide) ⟨.or, rfl⟩ (conjunction_meets hsound).forward
    (conjunction_parses hsound h)

/-- **The grammar of expressions with `n` levels left reads the phrases with at
most `n` levels.** -/
theorem complete_level (limit : Nat) : ∀ n, CompleteBelow n (level limit n)
  | 0 => nofun
  | n + 1 => by
    have h := complete_level limit n
    have hsound := sound_level limit n
    rintro m ⟨⟩
    exact ⟨_, rfl, ⟨condition_meets hsound, expression_meets hsound, signed_meets hsound⟩,
      ⟨condition_parses hsound h, expression_parses hsound h, signed_parses h⟩⟩

end Grammar
end SyntaxGraph
