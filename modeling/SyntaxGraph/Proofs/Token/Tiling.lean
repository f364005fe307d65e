/-
# Tokens tile the source

A source text is cut into gaps and lexemes, one of each for a token, and what
is left behind the last token. Every token stands where its lexeme starts:
its line is one more than the newlines before, its column one more than the
characters since the last of them. A lexical error ends the tokens, and those
before it tile the text up to their end all the same.

Key definitions: `Position.behind`, `Tile`, `Tile.Fits`.
Key theorems: `Position.after_behind`, `Cursor.exists_tiles`, `Scanner.items_tile`.
-/
import SyntaxGraph.Proofs.Token.Lexeme

namespace SyntaxGraph

/-! ### Positions by counting -/

/-- The position behind the characters `cs` at the start of a text. -/
def Position.behind (cs : List Char) : Position :=
  ⟨1 + cs.count '\n', 1 + (cs.reverse.takeWhile (· ≠ '\n')).length⟩

theorem Position.behind_concat (cs : List Char) (c : Char) :
    behind (cs ++ [c]) = (behind cs).advance c := by
  unfold behind advance
  by_cases hc : c = '\n'
  · subst hc
    simp [List.count_append, Nat.add_assoc]
  · rw [if_neg hc]
    simp [List.count_append, hc, Nat.add_comm]

/-- Walking on from a position is counting from the start. -/
theorem Position.after_behind (cs : List Char) :
    ∀ ds : List Char, (behind cs).after ds = behind (cs ++ ds)
  | [] => by rw [after_nil, List.append_nil]
  | d :: ds => by
    rw [after_cons, ← behind_concat, after_behind (cs ++ [d]) ds, List.append_assoc]
    rfl

/-! ### Step by step -/

/-- The items of at most `n` steps from a place on. -/
def Cursor.itemsWithin : Nat → Cursor → List Item
  | 0, _ => []
  | n + 1, c => c.next.1 :: (c.next.2.map (itemsWithin n)).getD []

/-- There is at most one step for each character, and one at the end. -/
theorem Cursor.items_eq_itemsWithin : ∀ (n : Nat) (c : Cursor), c.rest.length < n →
    c.items = c.itemsWithin n
  | 0, _, h => absurd h (Nat.not_lt_zero _)
  | n + 1, c, h => by
    rw [items_eq, itemsWithin]
    cases hnext : c.next with
    | mk item behind =>
      cases behind with
      | none => rfl
      | some d =>
        have hlt := next_rest_lt hnext
        exact congrArg (item :: ·) (items_eq_itemsWithin n d (by omega))

theorem Scanner.items_eq_itemsWithin (source : String) :
    (ofSource source).items = Cursor.itemsWithin (source.toList.length + 1) ⟨.start, source.toList⟩ :=
  Cursor.items_eq_itemsWithin _ _ (Nat.lt_succ_self _)

theorem Token.eq_nil_of_readLexeme {cs : List Char} (h : readLexeme cs = .nothing) : cs = [] := by
  unfold readLexeme at h
  split at h
  · rfl
  · cases h
  · split at h
    · unfold readString at h
      split at h <;> cases h
    split at h
    · unfold readNumeral at h
      simp only at h
      split at h
      · cases h
      split at h
      · cases h
      split at h <;> cases h
    split at h
    · cases h
    · unfold readSymbol at h
      split at h <;> cases h

/-- One step takes a gap, and then there is an error, the end, or a lexeme. -/
theorem Cursor.next_cases (c : Cursor) :
    ∃ gap r, c.rest = gap ++ r ∧ Token.IsGap gap r ∧
      ((∃ e, c.next = (.error e, none)) ∨
        (r = [] ∧ c.next = (.ok (Token.endOfInput (c.position.after gap)), none)) ∨
        ∃ kind text lexeme rest, r = lexeme ++ rest ∧ lexeme ≠ [] ∧ kind ≠ .eof ∧
          Token.Spells lexeme kind text ∧
          c.next = (.ok ⟨kind, text, c.position.after gap⟩,
            some ⟨c.position.after (gap ++ lexeme), rest⟩)) := by
  obtain ⟨r, hrest, hgap, hnext⟩ := c.exists_reading
  refine ⟨Token.gap c.rest, r, hrest, hgap, ?_⟩
  rw [hnext]
  cases hread : Token.readLexeme r with
  | fault ahead cause => exact .inl ⟨_, rfl⟩
  | nothing => exact .inr (.inl ⟨Token.eq_nil_of_readLexeme hread, rfl⟩)
  | token kind text lexeme rest =>
    obtain ⟨rfl, hkind, hspells⟩ := Token.readLexeme_spec hread
    have hlt := Token.readLexeme_rest_lt hread
    refine .inr (.inr ⟨kind, text, lexeme, rest, rfl, ?_, hkind, hspells, ?_⟩)
    · rintro rfl
      exact Nat.lt_irrefl _ hlt
    · rw [Token.Reading.step, Position.after_append]

/-- A step that goes on takes a gap and a lexeme, and gives a token that stands where the
lexeme starts. -/
theorem Cursor.exists_lexeme_of_next {c d : Cursor} {item : Item} (h : c.next = (item, some d)) :
    ∃ gap lexeme t, c.rest = gap ++ (lexeme ++ d.rest) ∧ lexeme ≠ [] ∧ item = .ok t ∧
      t.position = c.position.after gap ∧ d.position = c.position.after (gap ++ lexeme) := by
  obtain ⟨gap, r, hrest, -, ⟨e, hnext⟩ | ⟨-, hnext⟩ |
    ⟨kind, text, lexeme, rest, rfl, hlexeme, -, -, hnext⟩⟩ := c.next_cases
  · cases h.symm.trans hnext
  · cases h.symm.trans hnext
  · obtain ⟨rfl, hd⟩ := Prod.mk.inj (h.symm.trans hnext)
    obtain rfl := Option.some.inj hd
    exact ⟨gap, lexeme, _, hrest, hlexeme, rfl, rfl, rfl⟩

theorem Cursor.exists_next_of_mem_items (c : Cursor) {x : Item} : x ∈ c.items →
    ∃ (ahead : List Char) (d : Cursor), c.rest = ahead ++ d.rest ∧
      d.position = c.position.after ahead ∧ d.next.1 = x := by
  induction c using Cursor.items.induct with
  | case1 c item hnext =>
    intro hx
    rw [items_eq, hnext] at hx
    exact ⟨[], c, rfl, rfl, by rw [hnext]; exact (List.mem_singleton.mp hx).symm⟩
  | case2 c item d hnext ih =>
    intro hx
    rw [items_eq, hnext] at hx
    rcases List.mem_cons.mp hx with hhead | htail
    · exact ⟨[], c, rfl, rfl, by rw [hnext, hhead]⟩
    · obtain ⟨gap, lexeme, t, hrest, -, -, -, hposition⟩ := exists_lexeme_of_next hnext
      obtain ⟨ahead, d', hrest', hposition', hnext'⟩ := ih htail
      exact ⟨gap ++ lexeme ++ ahead, d', by rw [hrest, hrest', List.append_assoc, List.append_assoc],
        by rw [hposition', hposition, ← Position.after_append], hnext'⟩

/-- Outcomes can be compared. -/
instance decidableEqOutcome {ε α : Type} [DecidableEq ε] [DecidableEq α] : DecidableEq (Except ε α)
  | .ok a, .ok b => decidable_of_iff (a = b) ⟨congrArg _, Except.ok.inj⟩
  | .error d, .error e => decidable_of_iff (d = e) ⟨congrArg _, Except.error.inj⟩
  | .ok _, .error _ => .isFalse nofun
  | .error _, .ok _ => .isFalse nofun

/-! ### Tiles -/

/-- A token with its lexeme and the gap in front of it. -/
structure Tile where
  gap : List Char
  lexeme : List Char
  token : Token

namespace Tile

/-- The characters that tiles take. -/
def cover (tiles : List Tile) : List Char :=
  tiles.flatMap fun t => t.gap ++ t.lexeme

@[simp] theorem cover_nil : cover [] = [] := rfl

@[simp] theorem cover_cons (t : Tile) (tiles : List Tile) :
    cover (t :: tiles) = t.gap ++ (t.lexeme ++ cover tiles) := by
  simp [cover]

/-- The tile fits between the characters `before` it and those `after` it. -/
structure Fits (before after : List Char) (t : Tile) : Prop where
  gap : Token.IsGap t.gap (t.lexeme ++ after)
  lexeme : Token.Spells t.lexeme t.token.kind t.token.text
  position : t.token.position = Position.behind (before ++ t.gap)
  kind : t.token.kind ≠ .eof

end Tile

open Tile in
/-- From a place behind the characters `before`, the items are the tokens of
tiles that cover the text, and one last item, which is the next one behind the
tiles. -/
theorem Cursor.exists_tiles (c : Cursor) (before : List Char)
    (hc : c.position = Position.behind before) :
    ∃ (tiles : List Tile) (rest : List Char) (last : Item),
      c.items = tiles.map (fun t => .ok t.token) ++ [last] ∧ c.rest = cover tiles ++ rest ∧
      (∀ front t back, tiles = front ++ t :: back →
        t.Fits (before ++ cover front) (cover back ++ rest)) ∧
      next ⟨Position.behind (before ++ cover tiles), rest⟩ = (last, none) ∧
      ((∃ e, last = .error e) ∨
        last = .ok (Token.endOfInput (Position.behind (before ++ c.rest))) ∧ Token.IsGap rest []) := by
  induction hn : c.rest.length using Nat.strongRecOn generalizing c before with
  | ind n ih =>
    obtain ⟨gap, r, hrest, hgap, hnext⟩ := c.next_cases
    simp only [hc, Position.after_behind] at hnext
    have hhere : c = ⟨Position.behind (before ++ cover []), c.rest⟩ := by
      rw [cover_nil, List.append_nil, ← hc]
    rw [Cursor.items_eq]
    rcases hnext with ⟨e, hnext⟩ | ⟨rfl, hnext⟩ |
      ⟨kind, text, lexeme, rest, rfl, -, hkind, hspells, hnext⟩
    · exact ⟨[], c.rest, .error e, by rw [hnext]; rfl, rfl, by simp, hhere ▸ hnext, .inl ⟨e, rfl⟩⟩
    · rw [List.append_nil] at hrest
      subst hrest
      exact ⟨[], c.rest, _, by rw [hnext]; rfl, rfl, by simp, hhere ▸ hnext, .inr ⟨rfl, hgap⟩⟩
    · -- the first tile, and those behind it
      let d : Cursor := ⟨Position.behind (before ++ (gap ++ lexeme)), rest⟩
      obtain ⟨tiles, left, last, hitems, hcover, hfits, hend, hlast⟩ :=
        ih d.rest.length (hn ▸ next_rest_lt hnext) d _ rfl rfl
      have hd : rest = cover tiles ++ left := hcover
      let tile : Tile := ⟨gap, lexeme, kind, text, Position.behind (before ++ gap)⟩
      refine ⟨tile :: tiles, left, last, ?_, ?_, ?_, ?_, ?_⟩
      · rw [hnext]
        show _ :: d.items = _
        rw [hitems]
        rfl
      · rw [hrest, hd, cover_cons, List.append_assoc, List.append_assoc]
      · intro front t back hsplit
        cases front with
        | nil =>
          obtain ⟨rfl, rfl⟩ : tile = t ∧ tiles = back := by simpa using hsplit
          rw [hd] at hgap
          exact ⟨by simpa using hgap, hspells, by simp [tile], hkind⟩
        | cons t' front =>
          obtain ⟨rfl, rfl⟩ : tile = t' ∧ tiles = front ++ t :: back := by simpa using hsplit
          have := hfits front t back rfl
          simpa [tile] using this
      · simpa [tile] using hend
      · have hall : before ++ (gap ++ lexeme) ++ d.rest = before ++ c.rest := by
          rw [hrest, List.append_assoc, List.append_assoc]
        rw [hall] at hlast
        exact hlast

theorem Scanner.exists_tiles (source : String) :
    ∃ (tiles : List Tile) (rest : List Char) (last : Item),
      (Scanner.ofSource source).items = tiles.map (fun t => .ok t.token) ++ [last] ∧
      source.toList = Tile.cover tiles ++ rest ∧
      (∀ front t back, tiles = front ++ t :: back →
        t.Fits (Tile.cover front) (Tile.cover back ++ rest)) ∧
      Cursor.next ⟨Position.behind (Tile.cover tiles), rest⟩ = (last, none) ∧
      ((∃ e, last = .error e) ∨
        last = .ok (Token.endOfInput (Position.behind source.toList)) ∧ Token.IsGap rest []) := by
  simpa [ofSource, items] using Cursor.exists_tiles ⟨.start, source.toList⟩ [] rfl

/-- **Tokens tile the source and carry true positions.** The text is gaps and
lexemes in turn, one of each for a token, and what is left: the gap before the
end of the input, which stands at the end of the text, or what a lexical error
is in. -/
theorem Scanner.items_tile (source : String) :
    ∃ (tiles : List Tile) (rest : List Char) (last : Item),
      (Scanner.ofSource source).items = tiles.map (fun t => .ok t.token) ++ [last] ∧
      source.toList = Tile.cover tiles ++ rest ∧
      (∀ front t back, tiles = front ++ t :: back →
        t.Fits (Tile.cover front) (Tile.cover back ++ rest)) ∧
      ((∃ e, last = .error e) ∨
        last = .ok (Token.endOfInput (Position.behind source.toList)) ∧ Token.IsGap rest []) := by
  obtain ⟨tiles, rest, last, hitems, hcover, hfits, -, hlast⟩ := exists_tiles source
  exact ⟨tiles, rest, last, hitems, hcover, hfits, hlast⟩

end SyntaxGraph
