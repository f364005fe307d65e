/-
# Parses in the order of the stream

A parse that fails does so at a certain item. It has looked at the items in
front of that one and at the item itself, and of these only at what the grammar
sees of them; an error about a literal looks one item further. So the first
wrong item decides, however the items go on.

Key definitions: `Fails`.
Key theorems: `exists_fails`, `Fails.of_alike`, `parse_of_shapes`, `parse_in_order`.
-/
import SyntaxGraph.Proofs.Grammar.GrammarMirror
import SyntaxGraph.Proofs.Grammar.Items
import SyntaxGraph.Proofs.Grammar.Acceptance

namespace SyntaxGraph

open TokenStream Grammar

/-- A stream that is read as a program is what a program phrase is written with, and
no lexical error is behind it. -/
theorem TokenStream.exists_phrase {limit : Nat} {s : TokenStream} {p : Program}
    (h : s.parse limit = .ok p) : s.ending.isBroken = false ∧ ∃ d : ProgramPhrase,
      d.Grammatical ∧ d.Within limit ∧ d.tree = p ∧ d.yield = terminals s.tokens := by
  obtain ⟨r, hrun⟩ := parse_eq_ok.mp h
  have hmeets := program_meets limit s
  rw [hrun] at hmeets
  obtain ⟨ts, rfl, d, htree, hyield, hd, hn, hnil⟩ := hmeets
  obtain ⟨_, q | e⟩ := r <;> subst hnil
  · exact ⟨rfl, d, hd, hn, htree, by simpa using hyield⟩
  · rw [program_breaks hd hn hyield.symm] at hrun
    cases hrun

theorem TokenStream.exists_endOfInput {s : TokenStream} (h : s.ending.isBroken = false) :
    ∃ p, s = ⟨s.tokens, .endOfInput p⟩ := by
  obtain ⟨ts, p | e⟩ := s
  · exact ⟨p, rfl⟩
  · cases h

/-- Streams that are alike hold the same program. -/
theorem TokenStream.parse_of_alike {limit : Nat} {s r : TokenStream} {p : Program}
    (h : s.parse limit = .ok p) (hterminals : terminals r.tokens = terminals s.tokens)
    (hbroken : r.ending.isBroken = s.ending.isBroken) : r.parse limit = .ok p := by
  obtain ⟨hclosed, d, hd, hn, rfl, hyield⟩ := exists_phrase h
  obtain ⟨q, hr⟩ := exists_endOfInput (hbroken.trans hclosed)
  rw [hr]
  exact parse_eq_ok.mpr ⟨_, program_parses hd hn (hterminals.trans hyield.symm)⟩

/-- A stream that holds no program is refused behind certain tokens, and so are
the streams that are alike as far as the refusal looks. -/
theorem TokenStream.exists_refusal {limit : Nat} {s : TokenStream} {e : ParseError}
    (h : s.parse limit = .error e) : ∃ k x, k ≤ s.tokens.length ∧ e = (s.behind k).refusal x ∧
      ∀ r : TokenStream, terminals (r.tokens.take k) = terminals (s.tokens.take k) →
        Alike x.reach (s.behind k) (r.behind k) → r.parse limit = .error ((r.behind k).refusal x) := by
  have hmirrors : Mirrors (fun _ => False) (program limit) (program limit) :=
    program_mirrors (Nat.le_refl _) (.inr rfl)
  have hmirror := hmirrors s
  rw [parse_eq_error.mp h] at hmirror
  obtain ⟨x, ts, r, hs, rfl, -, hrefused⟩ := hmirror
  obtain ⟨rfl, htake, hlength⟩ := behind_push hs
  refine ⟨ts.length, x, hlength, rfl, fun r hterminals halike => ?_⟩
  have hrun := hrefused.resolve_left id _ _ (htake ▸ hterminals) halike
  rw [push_behind] at hrun
  exact parse_eq_error.mpr hrun

/-- With the given limit, the parse of the items fails at the item with the index `k`, where
it expects `x`. -/
structure Fails (limit : Nat) (items : List Item) (k : Nat) (x : Expectation) : Prop where
  le_tokens : k ≤ (ofItems items).tokens.length
  fails : (ofItems items).parse limit = .error (refusalAfter .start items k x)
  /-- So does the parse of items that make an alike stream, as far as it looks. -/
  alike : ∀ items', terminals ((ofItems items').tokens.take k) = terminals ((ofItems items).tokens.take k) →
    Alike x.reach ((ofItems items).behind k) ((ofItems items').behind k) →
    (ofItems items').parse limit = .error (refusalAfter .start items' k x)

/-- A parse that fails, fails at a certain item. -/
theorem exists_fails {limit : Nat} {items : List Item} {e : ParseError}
    (h : (ofItems items).parse limit = .error e) :
    ∃ k x, Fails limit items k x ∧ e = refusalAfter .start items k x := by
  obtain ⟨k, x, hk, he, hrefused⟩ := exists_refusal h
  have hrefusal := he.trans (refusal_behind .start items hk x)
  refine ⟨k, x, ⟨hk, h.trans (congrArg _ hrefusal), fun items' hterminals halike => ?_⟩, hrefusal⟩
  have hk' : k ≤ (ofItems items').tokens.length := by
    have := congrArg List.length hterminals
    simp only [terminals, List.length_map, List.length_take] at this
    omega
  exact (hrefused _ hterminals halike).trans (congrArg _ (refusal_behind .start items' hk' x))

namespace Fails

variable {limit : Nat} {items items' : List Item} {k : Nat} {x : Expectation}

/-- Items that make an alike stream fail alike. -/
theorem of_alike (h : Fails limit items k x)
    (hterminals : terminals (ofItems items').tokens = terminals (ofItems items).tokens)
    (hbroken : (ofItems items').ending.isBroken = (ofItems items).ending.isBroken) :
    Fails limit items' k x where
  le_tokens := by
    have hlength := congrArg List.length hterminals
    simp only [terminals, List.length_map] at hlength
    exact hlength ▸ h.le_tokens
  fails := by
    refine h.alike items' ?_ (alike_behind hterminals hbroken k _)
    simpa [terminals, List.map_take] using congrArg (List.take k) hterminals
  alike items'' hterminals'' halike := by
    refine h.alike items'' (hterminals''.trans ?_) ((alike_behind hterminals hbroken k _).trans halike)
    simpa [terminals, List.map_take] using congrArg (List.take k) hterminals

/-- Items with the same beginning fail alike, if it reaches far enough. -/
theorem of_take_eq (h : Fails limit items k x) {e : SyntaxError}
    (he : (ofItems items).parse limit = .error (.grammar e))
    (htake : items'.take (k + x.reach) = items.take (k + x.reach)) :
    (ofItems items').parse limit = .error (.grammar e) := by
  rcases ofItemsAfter_of_take_eq .start htake with hsame | ⟨ts, r, r', hlength, hr, hr'⟩
  · rw [← he, ofItems, ofItems, hsame]
  · have hk : k < ts.length := by have := x.one_le_reach; omega
    have hbehind : ∀ q : TokenStream, (q.push ts).behind k = q.push (ts.drop k) := fun q => by
      simp [behind, push, List.drop_append_of_le_length (Nat.le_of_lt hk)]
    have htokens : ∀ q : TokenStream, (q.push ts).tokens.take k = ts.take k := fun q => by
      simp [List.take_append_of_le_length (Nat.le_of_lt hk)]
    have halike : Alike x.reach (r.push (ts.drop k)) (r'.push (ts.drop k)) := by
      have hfront : x.reach ≤ (terminals (ts.drop k)).length := by simp [terminals]; omega
      refine ⟨?_, fun hshort => absurd hshort ?_⟩
      · simp only [tokens_push, terminals_append, List.take_append_of_le_length hfront]
      · simp only [tokens_push, List.length_append, List.length_drop]
        omega
    have hrun := h.alike items' (by rw [ofItems, ofItems, hr, hr', htokens, htokens])
      (by rw [ofItems, ofItems, hr, hr', hbehind, hbehind]; exact halike)
    have htake' : items'.take (k + 1) = items.take (k + 1) := by
      have := congrArg (List.take (k + 1)) htake
      simpa [List.take_take, Nat.min_eq_left (Nat.add_le_add_left x.one_le_reach k)] using this
    rw [hrun, refusalAfter_of_take_eq .start htake', ← h.fails, he]

theorem le_length (h : Fails limit items k x) : k ≤ items.length :=
  Nat.le_trans h.le_tokens (length_tokens_le items)

theorem index (h : Fails limit items k x) : stopIndex limit items = some k := by
  obtain ⟨hterminals, hbroken⟩ := alike_counted .start .start items 0
  obtain ⟨y, hy, hposition⟩ := getElem?_counted items 0 h.le_length
  rw [stopIndex, (h.of_alike hterminals hbroken).fails]
  simp [position_refusalAfter, positionAfter, hy, hposition]

/-- A syntax error is about the item at which the parse fails. -/
theorem stopsAt (h : Fails limit items k x) (hitem : ∀ e, items[k]? ≠ some (.error e)) :
    StopsAt limit items k ⟨items[k]?.bind Item.token?, x, positionAt items k⟩ := by
  rcases refusalAfter_cases .start items k x with ⟨e, he, -⟩ | ⟨-, hrefusal⟩
  · exact absurd he (hitem e)
  · exact ⟨h.fails.trans (congrArg _ hrefusal), h.index, h.le_length, rfl, rfl⟩

theorem breaksAt {e : LexicalError} (h : Fails Grammar.nestingLimit items k x) (hitem : items[k]? = some (.error e)) :
    BreaksAt items k e := by
  refine ⟨by rw [parse, h.fails, refusalAfter, hitem], hitem, fun y hy => ?_⟩
  obtain ⟨i, hi, rfl⟩ := List.mem_take_iff_getElem.mp hy
  have hk := h.le_tokens
  rw [ofItems, length_tokens_ofItemsAfter] at hk
  simpa using List.not_of_lt_findIdx (Nat.lt_of_lt_of_le (Nat.lt_of_lt_of_le hi (Nat.min_le_left ..)) hk)

end Fails

/-- A syntax error is about an item, and lists that begin like that give it too. -/
theorem exists_stopsAt {limit : Nat} {items : List Item} {e : SyntaxError}
    (he : (ofItems items).parse limit = .error (.grammar e)) :
    ∃ k, StopsAt limit items k e ∧ ∀ items',
      items'.take (k + e.expected.reach) = items.take (k + e.expected.reach) →
        (ofItems items').parse limit = .error (.grammar e) := by
  obtain ⟨k, x, hfails, hrefusal⟩ := exists_fails he
  rcases refusalAfter_cases .start items k x with ⟨e', -, hlexical⟩ | ⟨hne, hgrammar⟩
  · rw [hlexical] at hrefusal
    cases hrefusal
  · obtain rfl := ParseError.grammar.inj (hrefusal.trans hgrammar)
    exact ⟨k, hfails.stopsAt hne, fun items' htake => hfails.of_take_eq he htake⟩

theorem FailsAt.fails_of_take_eq {items items' : List Item} {k : Nat} {e : SyntaxError}
    (h : FailsAt items k e)
    (htake : items'.take (k + e.expected.reach) = items.take (k + e.expected.reach)) :
    parse items' = .error (.grammar e) := by
  obtain ⟨j, hj, hsame⟩ := exists_stopsAt h.fails
  obtain rfl : j = k := Option.some.inj (hj.index.symm.trans h.index)
  exact hsame items' htake

/-- A lexical error is an item, the first that ends the stream. -/
theorem exists_breaksAt {items : List Item} {e : LexicalError} (he : parse items = .error (.lexical e)) :
    ∃ k, BreaksAt items k e := by
  obtain ⟨k, x, hfails, hrefusal⟩ := exists_fails he
  rcases refusalAfter_cases .start items k x with ⟨e', hitem, hlexical⟩ | ⟨-, hgrammar⟩
  · obtain rfl := ParseError.lexical.inj (hrefusal.trans hlexical)
    exact ⟨k, hfails.breaksAt hitem⟩
  · rw [hgrammar] at hrefusal
    cases hrefusal

/-! ### What a parse depends on -/

/-- **Nothing but the shapes of the items counts**: a parse of other items of the
same shapes gives the same program, or a syntax error with the same expectation at
the same index, or the lexical error at the same index. -/
theorem parse_of_shapes {items items' : List Item} (h : items.map Item.shape = items'.map Item.shape) :
    (∃ p, parse items = .ok p ∧ parse items' = .ok p) ∨
    (∃ k e e', FailsAt items k e ∧ FailsAt items' k e' ∧
      e.expected = e'.expected ∧ e.atEnd = e'.atEnd) ∨
    ∃ k e e', BreaksAt items k e ∧ BreaksAt items' k e' := by
  obtain ⟨hterminals, hbroken⟩ := alike_of_shapes .start .start h.symm
  cases hparse : parse items with
  | ok p => exact .inl ⟨p, rfl, parse_of_alike hparse hterminals hbroken⟩
  | error e =>
    obtain ⟨k, x, hfails, -⟩ := exists_fails hparse
    have hfails' : Fails Grammar.nestingLimit items' k x := hfails.of_alike hterminals hbroken
    rcases refusalAfter_cases .start items k x with ⟨e₁, he₁, -⟩ | ⟨hne, -⟩
    · obtain ⟨y, hy, hshape⟩ := exists_of_shapes h he₁
      obtain ⟨e₂, rfl⟩ := Item.exists_error_of_shape hshape
      exact .inr (.inr ⟨k, e₁, e₂, hfails.breaksAt he₁, hfails'.breaksAt hy⟩)
    · have hne' : ∀ e₂, items'[k]? ≠ some (.error e₂) := fun e₂ he₂ => by
        obtain ⟨y, hy, hshape⟩ := exists_of_shapes h.symm he₂
        obtain ⟨e₁, rfl⟩ := Item.exists_error_of_shape hshape
        exact hne e₁ hy
      exact .inr (.inl ⟨k, _, _, hfails.stopsAt hne, hfails'.stopsAt hne', rfl, isNone_found_of_shapes h k⟩)

/-- A function without a name is one however its words are spelled, and wherever they stand. -/
theorem parse_respelled : ∃ e, FailsAt [.ok ⟨.funWord, "fn", ⟨9, 9⟩⟩, .ok ⟨.endWord, "", ⟨1, 1⟩⟩] 1 e ∧
    e.expected = .token .ident .functionName := by
  rcases @parse_of_shapes [.ok ⟨.funWord, "fun", ⟨1, 1⟩⟩, .ok ⟨.endWord, "end", ⟨1, 5⟩⟩]
      [.ok ⟨.funWord, "fn", ⟨9, 9⟩⟩, .ok ⟨.endWord, "", ⟨1, 1⟩⟩] rfl with
    ⟨p, hp, -⟩ | ⟨k, e, e', hfails, hfails', hexpected, -⟩ | ⟨k, e, e', hbreaks, -⟩
  · cases hp
  · obtain rfl : k = 1 := Option.some.inj hfails.index.symm
    obtain rfl := ParseError.grammar.inj (Except.error.inj hfails.fails)
    exact ⟨e', hfails', hexpected.symm⟩
  · cases hbreaks.fails

/-- **A parse looks at the items in their order**, and the first one that is wrong
decides:

* it depends on the items up to the first that is the end of the input or an error;
* the end of the input may be left out behind the last token;
* a syntax error about an item is the same for all lists that begin alike up to that
  item, or with an error about a literal up to the one behind it;
* a lexical error is the first item that ends the stream, and no list that begins
  alike has a syntax error in front of it, except about a literal;
* a program has no error in front of the first end of the input. -/
theorem parse_in_order (items : List Item) :
    (∀ items', items'.take (items.findIdx Item.isLast + 1) = items.take (items.findIdx Item.isLast + 1) →
      parse items' = parse items) ∧
    ((∀ x ∈ items, x.isLast = false) → ∀ text,
      parse (items ++ [.ok ⟨.eof, text, positionAt items items.length⟩]) = parse items) ∧
    (∀ e, parse items = .error (.grammar e) → ∃ k, FailsAt items k e ∧
      ∀ items', items'.take (k + e.expected.reach) = items.take (k + e.expected.reach) →
        parse items' = .error (.grammar e)) ∧
    (∀ e, parse items = .error (.lexical e) → ∃ j, BreaksAt items j e ∧
      ∀ items' k e', items'.take j = items.take j → FailsAt items' k e' → k < j →
        e'.expected = .integer ∨ e'.expected = .float) ∧
    ∀ p, parse items = .ok p → ∀ (k : Nat) (e : LexicalError), items[k]? = some (.error e) →
      ∃ j < k, ∃ t : Token, items[j]? = some (.ok t) ∧ t.kind = .eof := by
  refine ⟨fun items' htake => ?_, fun hopen text => ?_, fun e he => exists_stopsAt he, fun e he => ?_,
    fun p hp k e hk => ?_⟩
  · rw [parse, parse, ofItems, ofItems, ofItemsAfter_of_take_findIdx .start htake]
  · rw [parse, parse, ofItems, ofItems, ofItemsAfter_concat_eof rfl .start hopen rfl]
  · obtain ⟨j, hj⟩ := exists_breaksAt he
    refine ⟨j, hj, fun items' k e' htake hk hlt => Decidable.byContradiction fun hother => ?_⟩
    -- the other list fails at `k` with all lists that begin like it, and so with the given one
    have htake' : items.take (k + e'.expected.reach) = items'.take (k + e'.expected.reach) := by
      rw [Expectation.reach_eq_one (not_or.mp hother)]
      simpa [List.take_take, Nat.min_eq_left (Nat.succ_le_of_lt hlt)] using
        congrArg (List.take (k + 1)) htake.symm
    rw [hk.fails_of_take_eq htake'] at he
    cases he
  · obtain ⟨hclosed, -⟩ := exists_phrase hp
    exact exists_eof_of_isBroken_eq_false .start hclosed hk

/-- A lexical error does not mask a syntax error in front of it. -/
theorem parse_broken_late :
    parse [.ok ⟨.funWord, "fun", ⟨1, 1⟩⟩, .ok ⟨.endWord, "end", ⟨1, 5⟩⟩, .error ⟨.invalidEscape 'x', ⟨1, 9⟩⟩] =
      .error (.grammar ⟨some ⟨.endWord, "end", ⟨1, 5⟩⟩, .token .ident .functionName, ⟨1, 5⟩⟩) := by
  obtain ⟨-, -, hgrammar, -⟩ :=
    parse_in_order [.ok ⟨.funWord, "fun", ⟨1, 1⟩⟩, .ok ⟨.endWord, "end", ⟨1, 5⟩⟩]
  obtain ⟨k, hk, hsame⟩ := hgrammar _ rfl
  obtain rfl : k = 1 := Option.some.inj hk.index.symm
  exact hsame _ rfl

end SyntaxGraph
