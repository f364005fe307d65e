/-
# Lexical errors point at their own text

An error stands where the text starts that it is about. That need not be where
a token would start: an escape is wrong at its backslash, in the middle of a
string. From there on the source spells the text of the error: the whole run of
a malformed number, and a string that is not closed as it is written, through
the end of its line.

Key definitions: `LexicalError.Cause.Heads`, `LexicalError.PointsAt`.
Key theorems: `Position.behind_take_inj`, `Token.Reads.heads`, `Cursor.fault_of_next`,
`Scanner.error_points_at_text`.
-/
import SyntaxGraph.Proofs.Token.NextLine

namespace SyntaxGraph

/-! ### A position tells its place -/

theorem Position.eq_nil_of_behind_append {cs ds : List Char} (h : behind (cs ++ ds) = behind cs) :
    ds = [] := by
  simp only [behind, Position.mk.injEq, List.count_append, List.reverse_append] at h
  obtain ⟨hline, hcolumn⟩ := h
  -- on the same line, every character is a column
  have hno : ∀ c ∈ ds.reverse, decide (c ≠ '\n') = true := by
    have hcount : ds.count '\n' = 0 := by omega
    intro c hc
    rw [decide_eq_true_eq]
    rintro rfl
    exact List.count_eq_zero.mp hcount (List.mem_reverse.mp hc)
  rw [List.takeWhile_append_of_pos hno, List.length_append, List.length_reverse] at hcolumn
  exact List.length_eq_zero_iff.mp (by omega)

/-- The places of a text have positions of their own. -/
theorem Position.behind_take_inj {cs : List Char} {i j : Nat} (hi : i ≤ cs.length) (hj : j ≤ cs.length)
    (h : behind (cs.take i) = behind (cs.take j)) : i = j := by
  have hle : ∀ {i j : Nat}, i ≤ j → j ≤ cs.length → behind (cs.take i) = behind (cs.take j) → i = j := by
    intro i j hij hj h
    obtain ⟨ds, hds⟩ : cs.take i <+: cs.take j := List.take_prefix_take_left hij
    rw [← hds] at h
    rw [eq_nil_of_behind_append h.symm, List.append_nil] at hds
    have hlength := congrArg List.length hds
    rw [List.length_take, List.length_take] at hlength
    omega
  rcases Nat.le_total i j with hij | hji
  · exact hle hij hj h
  · exact (hle hji hi h.symm).symm

/-! ### What errors are about -/

open Token in
/-- The text starts with what the error is about. -/
inductive LexicalError.Cause.Heads : Cause → List Char → Prop where
  /-- A character that no lexeme starts with, here and without a gap in front. -/
  | unexpectedCharacter {c : Char} {cs : List Char} : gapPiece (c :: cs) = [] →
      (∀ k l, l <+: c :: cs → ¬ IsLexeme k l) → Heads (.unexpectedCharacter c) (c :: cs)
  /-- A quote and what is behind it, through the end of the line. -/
  | unterminatedString {raw rest : List Char} : '\n' ∉ raw → rest = [] ∨ rest.head? = some '\n' →
      Heads (.unterminatedString (String.ofList raw)) ('"' :: (raw ++ rest))
  /-- A backslash on the line of a character that it makes no escape with. -/
  | invalidEscape {c : Char} {rest : List Char} : c ≠ '\n' → unescape c = none →
      Heads (.invalidEscape c) ('\\' :: c :: rest)
  /-- The longest number and all letters, digits, underscores and points behind it. -/
  | invalidNumber {m rest : List Char} : IsLongest IsNumber m (m ++ rest) →
      Heads (.invalidNumber (String.ofList (m ++ rest.takeWhile fun c => isWordChar c || c = '.')))
        (m ++ rest)
  /-- A comment that nothing closes. -/
  | unterminatedComment {cs : List Char} : ¬ ['*', '/'] <:+: cs →
      Heads .unterminatedComment ('/' :: '*' :: cs)

/-- A text that starts with what the error is about starts with the text of the error. -/
theorem LexicalError.text_isPrefix {e : LexicalError} {cs : List Char} (h : e.cause.Heads cs) :
    e.text.toList <+: cs := by
  obtain ⟨cause, position⟩ := e
  cases h with
  | unexpectedCharacter => simp [text]
  | unterminatedString => simp [text]
  | invalidEscape => simp [text]
  | invalidNumber =>
    rw [text, String.toList_ofList]
    exact (List.prefix_append_right_inj _).mpr (List.takeWhile_prefix _)
  | unterminatedComment => simp [text]

/-- The text of a string that is not closed is the rest of its line. -/
theorem LexicalError.text_of_unterminatedString {e : LexicalError} {cs : List Char}
    (h : e.cause.Heads cs) {raw : String} (he : e.cause = .unterminatedString raw) :
    e.text.toList = cs.takeWhile (· ≠ '\n') := by
  obtain ⟨cause, position⟩ := e
  cases h with
  | @unterminatedString chars rest hline hend =>
    have hall : '\n' ∉ '"' :: chars := by simp [hline]
    have hstop : rest.head?.any (fun c => decide (c ≠ '\n')) = false := by
      rcases hend with rfl | hend
      · rfl
      · simp [hend]
    rw [← List.cons_append, takeWhile_append_of_head (forall_ne_of_not_mem hall) hstop]
    simp [text]
  | _ => cases he

/-! ### Faults of readings -/

namespace Token

/-- A comment that is not closed goes on without a closing. -/
theorem not_infix_of_throughClosing : ∀ {cs : List Char}, throughClosing cs = none →
    ¬ ['*', '/'] <:+: cs
  | [], _ => by simp
  | c :: cs, h => by
    by_cases hclosing : ['*', '/'] <+: c :: cs
    · obtain ⟨rest, hrest⟩ := hclosing
      rw [← hrest] at h
      cases h
    · rw [List.infix_cons_iff]
      refine not_or.mpr ⟨hclosing, not_infix_of_throughClosing ?_⟩
      rw [throughClosing.eq_3 c cs (by rintro rest rfl rfl; simp at hclosing)] at h
      exact Option.map_eq_none_iff.mp h

/-- No digit is behind the longest number that is digits. -/
theorem IsLongest.head_of_isDigits {m rest : List Char} (h : IsLongest IsNumber m (m ++ rest))
    (hm : Decimal.isDigits m = true) : rest.head?.any Char.isDigit = false := by
  cases rest with
  | nil => rfl
  | cons d rest =>
    cases hd : d.isDigit with
    | false => exact hd
    | true =>
      have hmore : Decimal.isDigits (m ++ [d]) = true := by
        simpa [isDigits_iff, or_imp, forall_and, hd] using (isDigits_iff.mp hm).2
      have hlength := h.le (m ++ [d]) (by simp) (.inl hmore)
      rw [List.length_append, List.length_singleton] at hlength
      exact absurd hlength (Nat.not_succ_le_self _)

/-- Behind a number that nothing spoils, no more characters belong to it. -/
theorem takeWhile_of_not_spoils {rest : List Char} (hspoils : rest.head?.any spoilsNumber = false)
    (hdigit : rest.head?.any Char.isDigit = false) :
    (rest.takeWhile fun c => isWordChar c || c = '.') = [] := by
  cases rest with
  | nil => rfl
  | cons c rest =>
    simp only [List.head?_cons, Option.any_some] at hspoils hdigit
    simp_all [spoilsNumber, isWordChar, Char.isAlphanum]

/-- What a reading finds fault with starts behind what it has passed. -/
theorem Reads.heads {cs before : List Char} {cause : LexicalError.Cause}
    (h : Reads cs (.fault before cause)) (hgap : gapPiece cs = []) :
    ∃ rest, cs = before ++ rest ∧ cause.Heads rest := by
  cases h with
  | @comment cs =>
    have hopen : throughClosing cs = none := by
      cases hbody : throughClosing cs with
      | none => rfl
      | some body => simp [gapPiece, hbody] at hgap
    exact ⟨_, rfl, .unterminatedComment (not_infix_of_throughClosing hopen)⟩
  | malformed hm => exact ⟨_, rfl, .invalidNumber hm⟩
  | @tooLarge m rest hm hspoils hds =>
    have hheads := LexicalError.Cause.Heads.invalidNumber hm
    rw [takeWhile_of_not_spoils hspoils (hm.head_of_isDigits hds), List.append_nil] at hheads
    exact ⟨_, rfl, hheads⟩
  | @badEscape raw _ c rest _ _ hc hno =>
    exact ⟨'\\' :: c :: rest, by simp, .invalidEscape hc hno⟩
  | @unterminated raw text cut rest hline _ hcut hend =>
    refine ⟨_, rfl, ?_⟩
    rw [← List.append_assoc]
    refine .unterminatedString (fun hmem => ?_) hend
    rcases List.mem_append.mp hmem with hmem | hmem
    · exact hline hmem
    · rcases hcut with rfl | rfl <;> simp at hmem
  | unexpected _ hno => exact ⟨_, rfl, .unexpectedCharacter hgap hno⟩

end Token

/-- An error is about the text at its position. The scanner has passed a gap,
and perhaps the characters of a string in front of the escape that is wrong. -/
theorem Cursor.fault_of_next {c : Cursor} {e : LexicalError} (h : c.next.1 = .error e) :
    ∃ ahead cs, c.rest = ahead ++ cs ∧ e.position = c.position.after ahead ∧ e.cause.Heads cs := by
  obtain ⟨r, hrest, hgap, hnext⟩ := c.exists_reading
  rw [hnext] at h
  cases hread : Token.readLexeme r with
  | token kind text lexeme rest =>
    rw [hread] at h
    cases h
  | fault passed cause =>
    rw [hread] at h
    obtain rfl := Except.error.inj h
    obtain ⟨cs, hcs, hheads⟩ :=
      (Token.reads_iff.mpr hread).heads (Token.gapPiece_eq_nil_of_gap hrest hgap)
    refine ⟨Token.gap c.rest ++ passed, cs, ?_, (Position.after_append ..).symm, hheads⟩
    rw [List.append_assoc, ← hcs]
    exact hrest
  | nothing =>
    rw [hread] at h
    cases h

/-! ### Errors of sources -/

/-- The error is about the text from the character with this index on. -/
structure LexicalError.PointsAt (e : LexicalError) (cs : List Char) (offset : Nat) : Prop where
  /-- No other place of the text has the position of the error. -/
  position : ∀ k ≤ cs.length, Position.behind (cs.take k) = e.position ↔ k = offset
  within : offset ≤ cs.length
  text : e.text.toList <+: cs.drop offset
  cause : e.cause.Heads (cs.drop offset)
  line : ∀ raw, e.cause = .unterminatedString raw →
    e.text.toList = (cs.drop offset).takeWhile (· ≠ '\n')

/-- **Lexical errors point at their own text.** The tokens in front of an error
tile the source up to a place that is not behind the error, and from the place
with its position on, and from no other, the source goes on with its text. -/
theorem Scanner.error_points_at_text {source : String} {e : LexicalError}
    (h : .error e ∈ (ofSource source).items) :
    ∃ (tiles : List Tile) (rest : List Char) (offset : Nat),
      (ofSource source).items = tiles.map (fun t => .ok t.token) ++ [.error e] ∧
      source.toList = Tile.cover tiles ++ rest ∧
      (∀ front t back, tiles = front ++ t :: back →
        t.Fits (Tile.cover front) (Tile.cover back ++ rest)) ∧
      (Tile.cover tiles).length ≤ offset ∧ e.PointsAt source.toList offset := by
  obtain ⟨tiles, rest, last, hitems, hcover, hfits, hnext, -⟩ := exists_tiles source
  obtain rfl : last = .error e := by
    rw [hitems] at h
    simpa [eq_comm] using h
  obtain ⟨ahead, cs, rfl, hposition, hheads⟩ := Cursor.fault_of_next (congrArg Prod.fst hnext)
  rw [Position.after_behind] at hposition
  -- the error is behind the tiles and what the scanner has passed
  have hcut : source.toList = (Tile.cover tiles ++ ahead) ++ cs := by
    rw [hcover, List.append_assoc]
  have hdrop : source.toList.drop (Tile.cover tiles ++ ahead).length = cs :=
    Token.drop_of_eq_append hcut
  have hwithin : (Tile.cover tiles ++ ahead).length ≤ source.toList.length :=
    List.IsPrefix.length_le ⟨cs, hcut.symm⟩
  have hhere : Position.behind (source.toList.take (Tile.cover tiles ++ ahead).length) = e.position := by
    rw [hposition, hcut, List.take_left]
  refine ⟨tiles, _, (Tile.cover tiles ++ ahead).length, hitems, hcover, hfits, by simp, ?_⟩
  exact {
    position := fun k hk =>
      ⟨fun heq => Position.behind_take_inj hk hwithin (heq.trans hhere.symm), fun heq => heq ▸ hhere⟩
    within := hwithin
    text := hdrop.symm ▸ LexicalError.text_isPrefix hheads
    cause := hdrop.symm ▸ hheads
    line := fun raw hraw => hdrop.symm ▸ LexicalError.text_of_unterminatedString hheads hraw }

/-- A bad escape in a string on the second line: the error is at the backslash. -/
theorem Scanner.bad_escape_points_at_backslash :
    .error ⟨.invalidEscape 'q', ⟨2, 8⟩⟩ ∈ (ofSource "skip\nx = \"ab\\qc").items ∧
      ∃ (tiles : List Tile) (rest : List Char) (offset : Nat),
        (ofSource "skip\nx = \"ab\\qc").items =
          tiles.map (fun t => .ok t.token) ++ [.error ⟨.invalidEscape 'q', ⟨2, 8⟩⟩] ∧
        "skip\nx = \"ab\\qc".toList = Tile.cover tiles ++ rest ∧
        (∀ front t back, tiles = front ++ t :: back →
          t.Fits (Tile.cover front) (Tile.cover back ++ rest)) ∧
        (Tile.cover tiles).length ≤ offset ∧
        LexicalError.PointsAt ⟨.invalidEscape 'q', ⟨2, 8⟩⟩ "skip\nx = \"ab\\qc".toList offset := by
  have hmem : .error ⟨.invalidEscape 'q', ⟨2, 8⟩⟩ ∈ (ofSource "skip\nx = \"ab\\qc").items := by
    rw [items_eq_itemsWithin]
    decide +kernel
  exact ⟨hmem, error_points_at_text hmem⟩

end SyntaxGraph
