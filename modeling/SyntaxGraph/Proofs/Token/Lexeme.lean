/-
# How tokens are spelled

A reading takes the lexeme of its token from the front of the text. The text of
a token is its lexeme, but for strings: the lexeme of a string is its text with
escapes, between quotes and on one line. A step of a scanner is a gap and a reading.

Key definitions: `Token.decoded`, `Token.Spells`, `Token.Reading.step`.
Key theorems: `Token.readLexeme_spec`, `Cursor.exists_reading`.
-/
import SyntaxGraph.Proofs.Token.Gap
import SyntaxGraph.Token.Scanner

namespace SyntaxGraph
namespace Token

/-- The text that the inside of a string literal stands for, if all backslashes
make escapes and no quote ends it. -/
def decoded : List Char → Option (List Char)
  | [] => some []
  | '"' :: _ => none
  | ['\\'] => none
  | '\\' :: c :: cs => (unescape c).bind fun d => (decoded cs).map (d :: ·)
  | c :: cs => (decoded cs).map (c :: ·)

/-- The lexeme spells the token. -/
def Spells (lexeme : List Char) (kind : Kind) (text : String) : Prop :=
  if kind = .stringLiteral then
    ∃ raw, lexeme = '"' :: (raw ++ ['"']) ∧ '\n' ∉ raw ∧ decoded raw = some text.toList
  else lexeme = text.toList

theorem spells_of_ne {lexeme : List Char} {kind : Kind} (h : kind ≠ .stringLiteral) :
    Spells lexeme kind (String.ofList lexeme) := by
  rw [Spells, if_neg h, String.toList_ofList]

/-- A closed string has its raw contents on one line, and they stand for its
contents. -/
theorem stringBody_spec {cs contents raw rest : List Char}
    (h : stringBody cs = .closed contents raw rest) : '\n' ∉ raw ∧ decoded raw = some contents := by
  fun_induction stringBody cs generalizing contents raw rest with
  | case1 => simp at h
  | case2 cs =>
    obtain ⟨rfl, rfl, -⟩ : [] = contents ∧ [] = raw ∧ cs = rest := by simpa using h
    exact ⟨by simp, rfl⟩
  | case3 => simp at h
  | case4 => simp at h
  | case5 => simp at h
  | case6 c cs hc d hd ih =>
    cases hbody : stringBody cs with
    | closed contents' raw' rest' =>
      rw [hbody] at h
      obtain ⟨rfl, rfl, -⟩ : d :: contents' = contents ∧ '\\' :: c :: raw' = raw ∧ rest' = rest := by
        simpa [StringBody.prepend] using h
      obtain ⟨hline, hdecoded⟩ := ih hbody
      refine ⟨by simp [hline, Ne.symm hc], ?_⟩
      simp [decoded, hd, hdecoded]
    | unclosed => simp [hbody, StringBody.prepend] at h
    | badEscape => simp [hbody, StringBody.prepend] at h
  | case7 => simp at h
  | case8 c cs hquote hnewline hlast hcut hescape ih =>
    have hbackslash : c ≠ '\\' := by
      intro hc
      cases cs with
      | nil => exact hlast hc rfl
      | cons d cs => exact hescape d cs hc rfl
    cases hbody : stringBody cs with
    | closed contents' raw' rest' =>
      rw [hbody] at h
      obtain ⟨rfl, rfl, -⟩ : c :: contents' = contents ∧ c :: raw' = raw ∧ rest' = rest := by
        simpa [StringBody.prepend] using h
      obtain ⟨hline, hdecoded⟩ := ih hbody
      have hc : '\n' ≠ c := fun h => hnewline h.symm
      refine ⟨by simp [hline, hc], ?_⟩
      rw [decoded.eq_5 c raw' (fun h => hquote h) (fun h _ => hbackslash h)
        (fun _ _ h _ => hbackslash h), hdecoded]
      rfl
    | unclosed => simp [hbody, StringBody.prepend] at h
    | badEscape => simp [hbody, StringBody.prepend] at h

theorem readString_spec {cs : List Char} {kind : Kind} {text : String} {lexeme rest : List Char}
    (h : readString cs = .token kind text lexeme rest) :
    '"' :: cs = lexeme ++ rest ∧ kind ≠ .eof ∧ Spells lexeme kind text := by
  unfold readString at h
  cases hbody : stringBody cs with
  | closed contents raw rest' =>
    rw [hbody] at h
    simp only [Reading.token.injEq] at h
    obtain ⟨rfl, rfl, rfl, rfl⟩ := h
    obtain ⟨hline, hdecoded⟩ := stringBody_spec hbody
    refine ⟨by simp [stringBody_closed hbody], by decide, ?_⟩
    rw [Spells, if_pos rfl]
    exact ⟨raw, rfl, hline, by rw [hdecoded, String.toList_ofList]⟩
  | unclosed => simp [hbody] at h
  | badEscape => simp [hbody] at h

/-! ### Numbers, words and symbols -/

theorem isPrefix_append {cs ds es : List Char} (hds : ds <+: cs) (hes : es <+: cs.drop ds.length) :
    ds ++ es <+: cs := by
  obtain ⟨rest, rfl⟩ := hds
  rw [List.drop_left] at hes
  exact List.prefix_append_right_inj ds |>.mpr hes

theorem fractionOf_isPrefix (cs : List Char) : fractionOf cs <+: cs := by
  unfold fractionOf
  split
  · exact List.cons_prefix_cons.mpr ⟨rfl, List.takeWhile_prefix _⟩
  · exact List.nil_prefix

theorem exponentOf_isPrefix (cs : List Char) : exponentOf cs <+: cs := by
  unfold exponentOf
  split
  · rename_i e cs
    split
    · have hdigits : ∀ sign ds : List Char, sign <+: cs → ds <+: cs.drop sign.length →
          (if ds.isEmpty then [] else e :: (sign ++ ds)) <+: e :: cs := by
        intro sign ds hs hd
        split
        · exact List.nil_prefix
        · exact List.cons_prefix_cons.mpr ⟨rfl, isPrefix_append hs hd⟩
      refine hdigits _ _ ?_ (List.takeWhile_prefix _)
      split
      · split
        · exact List.cons_prefix_cons.mpr ⟨rfl, List.nil_prefix⟩
        · exact List.nil_prefix
      · exact List.nil_prefix
    · exact List.nil_prefix
  · exact List.nil_prefix

theorem numeralOf_isPrefix (cs : List Char) : (numeralOf cs).1 ++ (numeralOf cs).2 <+: cs := by
  unfold numeralOf
  refine isPrefix_append (List.takeWhile_prefix _) (isPrefix_append (fractionOf_isPrefix _) ?_)
  rw [List.drop_drop]
  exact exponentOf_isPrefix _

theorem readNumeral_spec {cs : List Char} {kind : Kind} {text : String} {lexeme rest : List Char}
    (h : readNumeral cs = .token kind text lexeme rest) :
    cs = lexeme ++ rest ∧ kind ≠ .eof ∧ Spells lexeme kind text := by
  have hcut := (List.prefix_iff_eq_append.mp (numeralOf_isPrefix cs)).symm
  unfold readNumeral at h
  simp only at h
  split at h
  · cases h
  split at h
  · simp only [Reading.token.injEq] at h
    obtain ⟨rfl, rfl, rfl, rfl⟩ := h
    exact ⟨hcut, by decide, spells_of_ne (by decide)⟩
  split at h
  · simp only [Reading.token.injEq] at h
    obtain ⟨rfl, rfl, rfl, rfl⟩ := h
    exact ⟨hcut, by decide, spells_of_ne (by decide)⟩
  · cases h

theorem ofWord_mem {word : List Char} {kind : Kind} (h : Kind.ofWord word = some kind) :
    kind ∈ Kind.reserved := by
  unfold Kind.ofWord at h
  simp only at h
  split at h
  · exact List.mem_of_find?_eq_some h
  · cases h

theorem readWord_spec {cs : List Char} {kind : Kind} {text : String} {lexeme rest : List Char}
    (h : readWord cs = .token kind text lexeme rest) :
    cs = lexeme ++ rest ∧ kind ≠ .eof ∧ Spells lexeme kind text := by
  unfold readWord at h
  simp only [Reading.token.injEq] at h
  obtain ⟨hkind, rfl, rfl, rfl⟩ := h
  have hwords : ∀ k ∈ Kind.reserved, k ≠ .eof ∧ k ≠ .stringLiteral := by decide
  have hk : kind ≠ .eof ∧ kind ≠ .stringLiteral := by
    cases hw : Kind.ofWord (cs.takeWhile isWordChar) with
    | none => rw [← hkind, hw]; decide
    | some k =>
      rw [← hkind, hw]
      exact hwords k (ofWord_mem hw)
  have hcut := (List.prefix_iff_eq_append.mp (List.takeWhile_prefix (l := cs) isWordChar)).symm
  exact ⟨hcut, hk.1, spells_of_ne hk.2⟩

theorem readSymbol_spec {c : Char} {cs : List Char} {kind : Kind} {text : String}
    {lexeme rest : List Char} (h : readSymbol c cs = .token kind text lexeme rest) :
    c :: cs = lexeme ++ rest ∧ kind ≠ .eof ∧ Spells lexeme kind text := by
  unfold readSymbol at h
  split at h
  · rename_i k hk
    simp only [Reading.token.injEq] at h
    obtain ⟨rfl, rfl, rfl, rfl⟩ := h
    have hsymbols : ∀ k ∈ Kind.symbols, k ≠ .eof ∧ k ≠ .stringLiteral := by decide
    obtain ⟨heof, hstring⟩ := hsymbols k (List.mem_of_find?_eq_some hk)
    have hfound := List.find?_some hk
    have hprefix : k.spelling.toList <+: c :: cs := List.isPrefixOf_iff_prefix.mp hfound
    exact ⟨(List.prefix_iff_eq_append.mp hprefix).symm, heof, by rw [Spells, if_neg hstring]⟩
  · cases h

/-- **A reading takes a lexeme that spells its token** from the front of the
text. -/
theorem readLexeme_spec {cs : List Char} {kind : Kind} {text : String} {lexeme rest : List Char}
    (h : readLexeme cs = .token kind text lexeme rest) :
    cs = lexeme ++ rest ∧ kind ≠ .eof ∧ Spells lexeme kind text := by
  unfold readLexeme at h
  split at h
  · cases h
  · cases h
  · split at h
    · rename_i hquote
      rw [hquote]
      exact readString_spec h
    split at h
    · exact readNumeral_spec h
    split at h
    · exact readWord_spec h
    · exact readSymbol_spec h

/-- What a scanner does at a place with this reading. -/
def Reading.step (here : Position) : Reading → Item × Option Cursor
  | token kind text spelling rest => (.ok ⟨kind, text, here⟩, some ⟨here.after spelling, rest⟩)
  | fault before cause => (.error ⟨cause, here.after before⟩, none)
  | nothing => (.ok (endOfInput here), none)

end Token

/-- One step skips the longest gap, and then the reading decides. -/
theorem Cursor.next_of_reading {c : Cursor} {r : List Char} {x : Token.Reading}
    (hc : c.rest = Token.gap c.rest ++ r) (hread : Token.readLexeme r = x) :
    c.next = x.step (c.position.after (Token.gap c.rest)) := by
  have hdrop : c.rest.drop (Token.gap c.rest).length = r := Token.drop_of_eq_append hc
  unfold Cursor.next
  simp only [hdrop, hread]
  cases x <;> rfl

theorem Cursor.exists_reading (c : Cursor) :
    ∃ r, c.rest = Token.gap c.rest ++ r ∧ Token.IsGap (Token.gap c.rest) r ∧
      c.next = (Token.readLexeme r).step (c.position.after (Token.gap c.rest)) := by
  obtain ⟨r, hrest, hgap⟩ := Token.gap_spec c.rest
  exact ⟨r, hrest, hgap, next_of_reading hrest rfl⟩

end SyntaxGraph
