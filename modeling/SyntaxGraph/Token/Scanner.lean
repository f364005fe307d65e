/-
# Scanning a source text

A scanner yields the tokens of a text one by one, and the end of the input as
a last token; an error is the last item too. A scanner is a value: to keep one
is to be able to go back to its place.

Every token takes at least one character (`readLexeme_rest_lt`), so the items
are finitely many.

Key definitions: `Cursor.next`, `Scanner`, `Scanner.next`, `Scanner.items`,
`Scanner.tokens`.
Key theorems: `readLexeme_rest_lt`, `Cursor.items_eq`.
-/
import SyntaxGraph.Token.Gap
import SyntaxGraph.Token.Lexeme

namespace SyntaxGraph
namespace Token

/-! ### A token takes characters -/

/-- A closed string is its raw contents, the closing quote and the rest. -/
theorem stringBody_closed {cs contents raw rest : List Char}
    (h : stringBody cs = .closed contents raw rest) : cs = raw ++ '"' :: rest := by
  fun_induction stringBody cs generalizing contents raw rest with
  | case1 => simp at h
  | case2 cs => simp_all
  | case3 => simp at h
  | case4 => simp at h
  | case5 => simp at h
  | case6 c cs _ d _ ih =>
    cases hb : stringBody cs <;> simp [hb, StringBody.prepend] at h
    obtain ⟨-, rfl, rfl⟩ := h
    simp [ih hb]
  | case7 => simp at h
  | case8 c cs _ _ _ _ _ ih =>
    cases hb : stringBody cs <;> simp [hb, StringBody.prepend] at h
    obtain ⟨-, rfl, rfl⟩ := h
    simp [ih hb]

theorem readString_rest_lt {cs : List Char} {kind : Kind} {text : String}
    {spelling rest : List Char} (h : readString cs = .token kind text spelling rest) :
    rest.length < cs.length + 1 := by
  unfold readString at h
  split at h <;> simp at h
  rename_i contents raw rest' hb
  obtain ⟨-, -, -, rfl⟩ := h
  rw [stringBody_closed hb, List.length_append, List.length_cons]
  omega

theorem numeralOf_ne_nil {c : Char} {cs : List Char} (h : startsNumeral c cs = true) :
    (numeralOf (c :: cs)).1 ++ (numeralOf (c :: cs)).2 ≠ [] := by
  by_cases hd : c.isDigit = true
  · simp [numeralOf, hd]
  · have hdot : c = '.' := by
      simp [startsNumeral, hd] at h
      exact h.1
    subst hdot
    simp [numeralOf, fractionOf, show ('.' : Char).isDigit = false from rfl]

theorem readNumeral_rest_lt {c : Char} {cs : List Char} {kind : Kind} {text : String}
    {spelling rest : List Char} (hc : startsNumeral c cs = true)
    (h : readNumeral (c :: cs) = .token kind text spelling rest) :
    rest.length < (c :: cs).length := by
  have hpos := List.length_pos_iff.mpr (numeralOf_ne_nil hc)
  have hrest : rest = (c :: cs).drop
      ((numeralOf (c :: cs)).1 ++ (numeralOf (c :: cs)).2).length := by
    unfold readNumeral at h
    simp only at h
    split at h
    · simp at h
    split at h
    · injection h with _ _ _ h; exact h.symm
    split at h
    · injection h with _ _ _ h; exact h.symm
    · simp at h
  rw [hrest, List.length_drop, List.length_cons]
  omega

theorem readWord_rest_lt {c : Char} {cs : List Char} {kind : Kind} {text : String}
    {spelling rest : List Char} (hc : c.isAlpha = true)
    (h : readWord (c :: cs) = .token kind text spelling rest) :
    rest.length < (c :: cs).length := by
  have hw : isWordChar c = true := by simp [isWordChar, Char.isAlphanum, hc]
  have hpos : 0 < ((c :: cs).takeWhile isWordChar).length := by
    rw [List.takeWhile_cons_of_pos hw, List.length_cons]
    omega
  injection h with _ _ _ h
  rw [← h, List.length_drop, List.length_cons]
  omega

theorem spelling_ne_nil_of_mem_symbols :
    ∀ kind ∈ Kind.symbols, kind.spelling.toList ≠ [] := by
  decide

theorem readSymbol_rest_lt {c : Char} {cs : List Char} {kind : Kind} {text : String}
    {spelling rest : List Char} (h : readSymbol c cs = .token kind text spelling rest) :
    rest.length < (c :: cs).length := by
  unfold readSymbol at h
  split at h
  · rename_i k hk
    have hpos := List.length_pos_iff.mpr
      (spelling_ne_nil_of_mem_symbols k (List.mem_of_find?_eq_some hk))
    injection h with _ _ _ h
    subst h
    rw [List.length_drop, List.length_cons]
    omega
  · simp at h

/-- Every token takes at least one character. -/
theorem readLexeme_rest_lt {cs : List Char} {kind : Kind} {text : String}
    {spelling rest : List Char} (h : readLexeme cs = .token kind text spelling rest) :
    rest.length < cs.length := by
  unfold readLexeme at h
  split at h
  · simp at h
  · simp at h
  · split at h
    · exact readString_rest_lt h
    split at h
    · exact readNumeral_rest_lt ‹_› h
    split at h
    · exact readWord_rest_lt ‹_› h
    · exact readSymbol_rest_lt h

end Token

/-! ### The scanner -/

/-- A place in a source text: what is left of the text, and where that starts. -/
structure Cursor where
  position : Position
  rest : List Char
  deriving DecidableEq, Repr

namespace Cursor

/-- The next item, and the place behind it unless it is the last one. -/
def next (c : Cursor) : Item × Option Cursor :=
  let skipped := Token.gap c.rest
  let here := c.position.after skipped
  match Token.readLexeme (c.rest.drop skipped.length) with
  | .token kind text spelling rest =>
    (.ok ⟨kind, text, here⟩, some ⟨here.after spelling, rest⟩)
  | .fault before cause => (.error ⟨cause, here.after before⟩, none)
  | .nothing => (.ok (Token.endOfInput here), none)

theorem next_rest_lt {c d : Cursor} {item : Item} (h : c.next = (item, some d)) :
    d.rest.length < c.rest.length := by
  unfold next at h
  simp only at h
  split at h
  · rename_i hl
    have := Token.readLexeme_rest_lt hl
    rw [List.length_drop] at this
    injection h with _ h
    injection h with h
    subst h
    simp only
    omega
  · simp at h
  · simp at h

/-- All items from a place on. -/
def items (c : Cursor) : List Item :=
  match _ : c.next with
  | (item, none) => [item]
  | (item, some d) => item :: d.items
termination_by c.rest.length
decreasing_by exact next_rest_lt ‹_›

/-- The items are the next one and those behind it. -/
theorem items_eq (c : Cursor) :
    c.items = c.next.1 :: (c.next.2.map items).getD [] := by
  rw [items]
  split <;> simp [*]

end Cursor

/-- A scanner at a place in a source text, or one that has yielded its last
item. -/
structure Scanner where
  place : Option Cursor
  deriving DecidableEq, Repr

namespace Scanner

/-- The scanner at the start of `source`. -/
def ofSource (source : String) : Scanner :=
  ⟨some ⟨.start, source.toList⟩⟩

/-- The next item and the scanner behind it, if there is one more item. -/
def next (s : Scanner) : Option (Item × Scanner) :=
  s.place.map fun c => (c.next.1, ⟨c.next.2⟩)

/-- All items that are left. -/
def items (s : Scanner) : List Item :=
  match s.place with
  | some c => c.items
  | none => []

/-- The tokens that are left, or the error among them. -/
def tokens (s : Scanner) : Except LexicalError (List Token) :=
  s.items.mapM id

end Scanner
end SyntaxGraph
