/-
# The stream of a source

A scanner is asked for its items one by one. It gives the tokens of its source, each
further on than the one before, and takes at least one character for each. Then comes
one last item, which is the end of the input where all of the text is taken, or an
error. From there on it gives nothing, however often it is asked.

What a scanner gives does not depend on where the text stands: behind another source
with no error in it and a newline, the items are the same, some lines further down.

Key definitions: `Position.Before`, `Scanner.item?`, `Scanner.after`.
Key theorems: `Scanner.item?_after`, `Cursor.pairwise_before`, `Scanner.items_of_tokens`,
`Scanner.items_behind_source`, `Scanner.stream_ends`.
-/
import Mathlib.Logic.Function.Iterate
import SyntaxGraph.Proofs.Source.Diagnostics
import SyntaxGraph.Proofs.Token.Layout

namespace SyntaxGraph

/-! ### The order of positions -/

namespace Position

/-- The first position is on an earlier line than the second, or to the left of it. -/
def Before (p q : Position) : Prop :=
  p.line < q.line ∨ p.line = q.line ∧ p.column < q.column

theorem Before.trans {p q r : Position} (h : p.Before q) (h' : q.Before r) : p.Before r := by
  unfold Before at h h' ⊢
  omega

theorem before_advance (p : Position) (c : Char) : p.Before (p.advance c) := by
  unfold advance
  by_cases hc : c = '\n'
  · rw [if_pos hc]
    exact .inl (Nat.lt_succ_self _)
  · rw [if_neg hc]
    exact .inr ⟨rfl, Nat.lt_succ_self _⟩

theorem before_after : ∀ (p : Position) {cs : List Char}, cs ≠ [] → p.Before (p.after cs)
  | _, [], h => absurd rfl h
  | p, [c], _ => before_advance p c
  | p, c :: d :: cs, _ =>
    (before_advance p c).trans (before_after (p.advance c) (List.cons_ne_nil d cs))

end Position

/-! ### Steps of a scanner -/

/-- A step that gives a proper token goes on. -/
theorem Cursor.exists_next_of_token {c : Cursor} {t : Token} (h : c.next.1 = .ok t)
    (ht : t.kind ≠ .eof) : ∃ d, c.next = (.ok t, some d) := by
  obtain ⟨gap, r, -, -, ⟨e, hnext⟩ | ⟨-, hnext⟩ | ⟨kind, text, lexeme, rest, -, -, -, -, hnext⟩⟩ :=
    c.next_cases
  all_goals rw [hnext] at h ⊢
  · cases h
  · obtain rfl := Except.ok.inj h
    exact absurd rfl ht
  · obtain rfl := Except.ok.inj h
    exact ⟨_, rfl⟩

theorem Cursor.isGap_of_next_eof {c : Cursor} {t : Token} (h : c.next.1 = .ok t)
    (ht : t.kind = .eof) : Token.IsGap c.rest [] := by
  obtain ⟨gap, r, hrest, hgap, ⟨e, hnext⟩ | ⟨rfl, hnext⟩ |
    ⟨kind, text, lexeme, rest, -, -, hkind, -, hnext⟩⟩ := c.next_cases
  all_goals rw [hnext] at h
  · cases h
  · rwa [hrest, List.append_nil]
  · obtain rfl := Except.ok.inj h
    exact absurd ht hkind

/-- Items are further on than the items in front of them. -/
theorem Cursor.pairwise_before (c : Cursor) :
    (c.items.map Item.position).Pairwise Position.Before := by
  induction c using Cursor.items.induct with
  | case1 c item hnext =>
    rw [items_eq, hnext]
    exact List.pairwise_singleton ..
  | case2 c item d hnext ih =>
    rw [items_eq, hnext]
    refine List.pairwise_cons.mpr ⟨fun p hp => ?_, ih⟩
    obtain ⟨x, hx, rfl⟩ := List.mem_map.mp hp
    -- a later item stands behind the lexeme of this one
    obtain ⟨gap, lexeme, t, -, hne, rfl, ht, hd⟩ := exists_lexeme_of_next hnext
    obtain ⟨ahead, d', -, hd', rfl⟩ := exists_next_of_mem_items d hx
    obtain ⟨skipped, -, hposition⟩ := d'.position_of_next
    rw [hposition, hd', hd, Position.after_append, ← Position.after_append,
      ← Position.after_append, ← ht]
    exact Position.before_after _ (by simp [hne])

namespace Scanner

/-- The next item. -/
def item? (s : Scanner) : Option Item :=
  s.next.map Prod.fst

/-- The scanner once it has been asked for an item. Without one it stays as it is. -/
def asked (s : Scanner) : Scanner :=
  (s.next.map Prod.snd).getD s

/-- The scanner once it has been asked for `n` items. -/
def after (s : Scanner) (n : Nat) : Scanner :=
  asked^[n] s

theorem items_eq (s : Scanner) : s.items = (s.next.map fun x => x.1 :: x.2.items).getD [] := by
  obtain ⟨_ | c⟩ := s
  · rfl
  · show c.items = c.next.1 :: items ⟨c.next.2⟩
    rw [Cursor.items_eq]
    cases c.next.2 <;> rfl

/-- A scanner gives its items in order, and then nothing for ever. -/
theorem item?_after (s : Scanner) (n : Nat) : (s.after n).item? = s.items[n]? := by
  induction n generalizing s with
  | zero =>
    rw [items_eq]
    show s.next.map Prod.fst = _
    cases s.next <;> rfl
  | succ n ih =>
    show (s.asked.after n).item? = _
    rw [ih, asked, items_eq s]
    cases hnext : s.next with
    | none => simp [items_eq s, hnext]
    | some x => rfl

theorem after_succ (s : Scanner) (n : Nat) : s.after (n + 1) = (s.after n).asked :=
  Function.iterate_succ_apply' ..

theorem exists_place {s : Scanner} {x : Item} (h : s.item? = some x) :
    ∃ c, s.place = some c ∧ c.next.1 = x := by
  obtain ⟨_ | c⟩ := s
  · cases h
  · exact ⟨c, rfl, Option.some.inj h⟩

theorem place_asked {s : Scanner} {c : Cursor} (h : s.place = some c) :
    s.asked.place = c.next.2 := by
  obtain rfl : s = ⟨some c⟩ := congrArg Scanner.mk h
  rfl

/-- Each token takes at least one character. -/
theorem exists_taken {s : Scanner} {n : Nat} {t : Token} (h : s.items[n]? = some (.ok t))
    (ht : t.kind ≠ .eof) : ∃ c d taken, (s.after n).place = some c ∧
      (s.after (n + 1)).place = some d ∧ taken ≠ [] ∧ c.rest = taken ++ d.rest := by
  rw [← item?_after] at h
  obtain ⟨c, hc, hitem⟩ := exists_place h
  obtain ⟨d, hnext⟩ := c.exists_next_of_token hitem ht
  obtain ⟨gap, lexeme, -, hrest, hne, -⟩ := Cursor.exists_lexeme_of_next hnext
  refine ⟨c, d, gap ++ lexeme, hc, ?_, by simp [hne], by rw [hrest, List.append_assoc]⟩
  rw [after_succ, place_asked hc, hnext]

theorem length_items_le (source : String) :
    (ofSource source).items.length ≤ source.toList.length + 1 := by
  have hle : ∀ (n : Nat) (c : Cursor), (c.itemsWithin n).length ≤ n := by
    intro n
    induction n with
    | zero => exact fun c => Nat.le_refl 0
    | succ n ih =>
      intro c
      rw [Cursor.itemsWithin, List.length_cons]
      refine Nat.succ_le_succ ?_
      cases c.next.2 with
      | none => exact Nat.zero_le n
      | some d => exact ih d
  rw [items_eq_itemsWithin]
  exact hle _ _

/-! ### All items at once -/

theorem mapM_id_error {ε α : Type} (e : ε) : ∀ as : List α,
    (as.map Except.ok ++ [Except.error e]).mapM id = (.error e : Except ε (List α))
  | [] => rfl
  | a :: as => by
    rw [List.map_cons, List.cons_append, List.mapM_cons, mapM_id_error e as]
    rfl

theorem tokens_of_items {s : Scanner} {us : List Token} (h : s.items = us.map .ok) :
    s.tokens = .ok us := by
  rw [tokens, h, mapM_id_ok]

theorem tokens_of_items_error {s : Scanner} {ts : List Token} {e : LexicalError}
    (h : s.items = ts.map .ok ++ [.error e]) : s.tokens = .error e := by
  rw [tokens, h, mapM_id_error]

/-- Tokens are all that a source holds if they are read without an error. -/
theorem items_of_tokens {source : String} {us : List Token}
    (h : (ofSource source).tokens = .ok us) : ∃ (ts : List Token) (p : Position),
      us = ts ++ [Token.endOfInput p] ∧ (ofSource source).items = us.map .ok := by
  obtain ⟨ts, -, ⟨e, hitems⟩ | ⟨p, hitems⟩⟩ := items_cases source
  · rw [tokens_of_items_error hitems] at h
    cases h
  · have hall : (ofSource source).items = (ts ++ [Token.endOfInput p]).map .ok := by
      rw [hitems, List.map_append]
      rfl
    rw [tokens_of_items hall] at h
    obtain rfl := Except.ok.inj h
    exact ⟨ts, p, rfl, hall⟩

/-! ### One source behind another -/

/-- **Where a source stands makes no difference but to its lines.** Behind a source that
is read without an error and a newline, any source gives the same items as alone, at the
same columns and as many lines further down. -/
theorem items_behind_source {a : String} {us : List Token} (ha : (ofSource a).tokens = .ok us)
    (b : String) : ∃ (ts : List Token) (p : Position), us = ts ++ [Token.endOfInput p] ∧
      (∀ t ∈ ts, t.kind ≠ .eof) ∧
      (ofSource (a ++ "\n" ++ b)).items =
        ts.map .ok ++ (ofSource b).items.map (Item.down (1 + a.toList.count '\n')) := by
  obtain ⟨-, -, -, hitems⟩ := items_of_tokens ha
  have hclean : ∀ e, .error e ∉ (ofSource a).items := fun e he => by
    rw [hitems] at he
    simp at he
  obtain ⟨ts, p, hts, hfront, hall⟩ := items_append b hclean
  refine ⟨ts, p, ?_, hts, hall⟩
  have hsame : us.map Except.ok =
      (ts ++ [Token.endOfInput p]).map (Except.ok (ε := LexicalError)) := by
    rw [← hitems, hfront, List.map_append]
    rfl
  exact (List.map_inj_right fun _ _ => Except.ok.inj).mp hsame

/-- A slash ends the first line, a comment the second, and an escape is wrong in the third. -/
theorem items_behind_two_lines :
    (ofSource "x /\n1 //").tokens = .ok [⟨.ident, "x", ⟨1, 1⟩⟩, ⟨.slash, "/", ⟨1, 3⟩⟩,
      ⟨.intLiteral, "1", ⟨2, 1⟩⟩, ⟨.eof, "", ⟨2, 5⟩⟩] ∧
    (ofSource ("x /\n1 //" ++ "\n" ++ "/ \"\\q")).items = [.ok ⟨.ident, "x", ⟨1, 1⟩⟩,
      .ok ⟨.slash, "/", ⟨1, 3⟩⟩, .ok ⟨.intLiteral, "1", ⟨2, 1⟩⟩, .ok ⟨.slash, "/", ⟨3, 1⟩⟩,
      .error ⟨.invalidEscape 'q', ⟨3, 4⟩⟩] := by
  have ha : (ofSource "x /\n1 //").tokens = .ok [⟨.ident, "x", ⟨1, 1⟩⟩, ⟨.slash, "/", ⟨1, 3⟩⟩,
      ⟨.intLiteral, "1", ⟨2, 1⟩⟩, ⟨.eof, "", ⟨2, 5⟩⟩] := by
    rw [tokens, items_eq_itemsWithin]
    decide +kernel
  have hb : (ofSource "/ \"\\q").items =
      [.ok ⟨.slash, "/", ⟨1, 1⟩⟩, .error ⟨.invalidEscape 'q', ⟨1, 4⟩⟩] := by
    rw [items_eq_itemsWithin]
    decide +kernel
  refine ⟨ha, ?_⟩
  obtain ⟨ts, p, hus, -, hall⟩ := items_behind_source ha "/ \"\\q"
  have hfront : [_, _, _] ++ [_] = ts ++ [Token.endOfInput p] := hus
  obtain ⟨rfl, -⟩ := List.append_inj' hfront rfl
  rw [hall, hb]
  rfl

/-! ### The end of the stream -/

/-- **The stream of a source is finite and well shaped.** A scanner that is asked again and
again gives the items in order and then nothing. There are at most as many as the source has
characters, and one, and each is further on than those in front of it. All but the last are
proper tokens, and each of these takes at least one character. The last is an error, which is
what reading all tokens at once comes to; or it is the end of the input, behind all of the
text, and what is left of the text there is a gap. -/
theorem stream_ends (source : String) :
    (∀ n, ((ofSource source).after n).item? = (ofSource source).items[n]?) ∧
    (ofSource source).items.length ≤ source.toList.length + 1 ∧
    ((ofSource source).items.map Item.position).Pairwise Position.Before ∧
    ∃ (ts : List Token) (last : Item), (ofSource source).items = ts.map .ok ++ [last] ∧
      (∀ t ∈ ts, t.kind ≠ .eof) ∧
      (∀ n < ts.length, ∃ c d taken, ((ofSource source).after n).place = some c ∧
        ((ofSource source).after (n + 1)).place = some d ∧ taken ≠ [] ∧ c.rest = taken ++ d.rest) ∧
      ((∃ e, last = .error e ∧ (ofSource source).tokens = .error e) ∨
        ∃ t c, last = .ok t ∧ t.kind = .eof ∧ t.position = Position.behind source.toList ∧
          ((ofSource source).after ts.length).place = some c ∧ Token.IsGap c.rest [] ∧
          (ofSource source).tokens = .ok (ts ++ [t])) := by
  refine ⟨item?_after _, length_items_le source, Cursor.pairwise_before _, ?_⟩
  obtain ⟨tiles, rest, last, hitems, -, hfits, -, hlast⟩ := exists_tiles source
  have hall : (ofSource source).items = (tiles.map Tile.token).map .ok ++ [last] := by
    rw [List.map_map]
    exact hitems
  have hkind : ∀ t ∈ tiles.map Tile.token, t.kind ≠ .eof := by
    intro t ht
    obtain ⟨tile, htile, rfl⟩ := List.mem_map.mp ht
    obtain ⟨front, back, hsplit⟩ := List.append_of_mem htile
    exact (hfits front tile back hsplit).kind
  refine ⟨tiles.map Tile.token, last, hall, hkind, fun n hn => ?_, ?_⟩
  · have hget : (ofSource source).items[n]? = some (.ok (tiles.map Tile.token)[n]) := by
      rw [hall, List.getElem?_append_left (by simpa using hn), List.getElem?_map,
        List.getElem?_eq_getElem hn]
      rfl
    exact exists_taken hget (hkind _ (List.getElem_mem hn))
  · rcases hlast with ⟨e, rfl⟩ | ⟨rfl, -⟩
    · exact .inl ⟨e, rfl, tokens_of_items_error hall⟩
    · -- the scanner gives the end of the input where only a gap is left
      have hget : ((ofSource source).after (tiles.map Tile.token).length).item? =
          some (.ok (Token.endOfInput (Position.behind source.toList))) := by
        rw [item?_after, hall]
        simp
      obtain ⟨c, hc, hnext⟩ := exists_place hget
      refine .inr ⟨_, c, rfl, rfl, rfl, hc, Cursor.isGap_of_next_eof hnext rfl, ?_⟩
      exact tokens_of_items (by rw [hall, List.map_append]; rfl)

end Scanner
end SyntaxGraph
