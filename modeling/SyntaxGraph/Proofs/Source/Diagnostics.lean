/-
# Diagnostics

The message of an error is one line. What it shows of the source holds no newline
of its own, since no lexeme and no wrong text goes over the end of a line, and the
contents of a string are shown in quotes. The line that it names is a line of the
source, and a syntax error is where a token of the source is, or its end.

Key definitions: `ParseError.Diagnoses`.
Key theorems: `LexicalError.newline_not_mem_text`, `Scanner.line_of_mem_items`,
`parseSource_item`, `parseSource_diagnoses`.
-/
import SyntaxGraph.Proofs.Source.Concatenation
import SyntaxGraph.Proofs.Token.Fault

namespace SyntaxGraph

/-! ### Messages on one line -/

theorem Text.newline_not_mem {text : String} (cs : List Char) (htext : text = String.ofList cs)
    (hcs : cs.contains '\n' = false) : '\n' ∉ text.toList := by
  rw [htext, String.toList_ofList]
  simpa using hcs

/-- No newline is in the text of a token that is read, unless it is a string. -/
theorem Token.Reads.newline_not_mem_text {cs lexeme rest : List Char} {kind : Kind} {text : String}
    (h : Reads cs (.token kind text lexeme rest)) (hkind : kind ≠ .stringLiteral) :
    '\n' ∉ text.toList := by
  cases h with
  | int _ _ hds =>
    rw [String.toList_ofList]
    exact IsNumber.newline_not_mem (.inl hds)
  | float _ _ hm =>
    rw [String.toList_ofList]
    exact IsNumber.newline_not_mem (.inr hm)
  | string => exact absurd rfl hkind
  | lexeme _ hl =>
    rw [String.toList_ofList]
    exact hl.newline_not_mem

theorem Token.newline_not_mem_describe {t : Token}
    (h : t.kind ≠ .stringLiteral → '\n' ∉ t.text.toList) : '\n' ∉ t.describe.toList := by
  unfold describe
  split <;> simp_all [Text.newline_not_mem_quoted]

/-- What an error is about ends on its line. -/
theorem LexicalError.newline_not_mem_text {e : LexicalError} {cs : List Char} (h : e.cause.Heads cs) :
    '\n' ∉ e.text.toList := by
  obtain ⟨cause, position⟩ := e
  cases h with
  | @unexpectedCharacter c cs hgap =>
    have hc : c ≠ '\n' := by
      rintro rfl
      cases hgap
    simpa [text] using Ne.symm hc
  | unterminatedString hline => simpa [text] using hline
  | invalidEscape hc => simpa [text] using Ne.symm hc
  | invalidNumber hm =>
    rw [text, String.toList_ofList, List.mem_append, not_or]
    exact ⟨hm.holds.newline_not_mem, fun hmem => absurd (Token.takeWhile_all _ hmem) (by decide)⟩
  | unterminatedComment => simp [text]

theorem LexicalError.newline_not_mem_message {e : LexicalError} (h : '\n' ∉ e.text.toList) :
    '\n' ∉ e.message.toList := by
  obtain ⟨cause, position⟩ := e
  cases cause with
  | unterminatedComment => simp [message, Decimal.newline_not_mem_natText]
  | _ => simpa [message, text, Decimal.newline_not_mem_natText] using h

theorem Expectation.newline_not_mem_text (x : Expectation) : '\n' ∉ x.text.toList := by
  cases x with
  | token kind place =>
    have hkind : '\n' ∉ kind.describe.toList := by
      cases kind <;> simp [Token.Kind.describe, Token.Kind.spelling]
    have hplace : '\n' ∉ place.text.toList := by
      cases place <;> exact Text.newline_not_mem _ rfl rfl
    simp [text, hkind, hplace]
  | nesting limit => simp [text, Decimal.newline_not_mem_natText]
  | _ => exact Text.newline_not_mem _ rfl rfl

theorem SyntaxError.newline_not_mem_message {e : SyntaxError}
    (h : ∀ t, e.found = some t → '\n' ∉ t.describe.toList) : '\n' ∉ e.message.toList := by
  have hfound : '\n' ∉ e.foundText.toList := by
    unfold foundText
    split
    · exact h _ ‹_›
    · decide
  have hexpected := e.expected.newline_not_mem_text
  have hline := Decimal.newline_not_mem_natText e.position.line
  unfold message
  generalize e.foundText = found at hfound ⊢
  generalize e.expected.text = expected at hexpected ⊢
  simp [hfound, hexpected, hline]

theorem LexicalError.message_names_line (e : LexicalError) :
    ∃ front, e.message = front ++ ("line " ++ Decimal.natText e.position.line) := by
  obtain ⟨cause, position⟩ := e
  cases cause with
  | unexpectedCharacter c =>
    exact ⟨"unexpected character '" ++ c.toString ++ "' at ", by simp [message, ← String.toList_inj]⟩
  | unterminatedString raw =>
    exact ⟨"unterminated string literal \"" ++ raw ++ "\" starting at ",
      by simp [message, ← String.toList_inj]⟩
  | invalidEscape c =>
    exact ⟨"unknown escape sequence '\\" ++ c.toString ++ "' at ", by simp [message, ← String.toList_inj]⟩
  | invalidNumber literal =>
    exact ⟨"malformed numeric literal '" ++ literal ++ "' at ", by simp [message, ← String.toList_inj]⟩
  | unterminatedComment =>
    exact ⟨"unterminated block comment starting at ", by simp [message, ← String.toList_inj]⟩

theorem SyntaxError.message_names_line (e : SyntaxError) :
    ∃ back, e.message = "syntax error at " ++ ("line " ++ Decimal.natText e.position.line) ++ back := by
  have hlead : "syntax error at line " = "syntax error at " ++ "line " := rfl
  refine ⟨": unexpected " ++ e.foundText ++ ", expected " ++ e.expected.text, ?_⟩
  unfold message
  rw [hlead]
  simp only [String.append_assoc]

theorem ParseError.message_names_line : ∀ e : ParseError, ∃ front back : String,
    e.message = front ++ ("line " ++ Decimal.natText e.position.line) ++ back
  | lexical e => by
    obtain ⟨front, hfront⟩ := e.message_names_line
    exact ⟨front, "", hfront.trans (String.append_empty).symm⟩
  | grammar e => ⟨_, e.message_names_line⟩

/-! ### Items of a source -/

/-- An item stands behind characters that its scanner has passed. -/
theorem Cursor.position_of_next (c : Cursor) :
    ∃ ahead, ahead <+: c.rest ∧ c.next.1.position = c.position.after ahead := by
  cases hnext : c.next.1 with
  | error e =>
    obtain ⟨ahead, cs, hrest, hposition, -⟩ := fault_of_next hnext
    exact ⟨ahead, ⟨cs, hrest.symm⟩, hposition⟩
  | ok t =>
    obtain ⟨ahead, cs, hrest, hposition, -⟩ := token_of_next hnext
    exact ⟨ahead, ⟨cs, hrest.symm⟩, hposition⟩

/-- Items are on the lines of their source. -/
theorem Scanner.line_of_mem_items {source : String} {x : Item} (h : x ∈ (ofSource source).items) :
    1 ≤ x.position.line ∧ x.position.line ≤ 1 + source.toList.count '\n' := by
  obtain ⟨passed, d, hrest, hposition, rfl⟩ := Cursor.exists_next_of_mem_items _ h
  obtain ⟨ahead, hahead, hnext⟩ := d.position_of_next
  have hfront : passed ++ ahead <+: source.toList := by
    rw [show source.toList = passed ++ d.rest from hrest]
    exact (List.prefix_append_right_inj passed).mpr hahead
  have hbehind : d.next.1.position = Position.behind (passed ++ ahead) := by
    rw [hnext, hposition, ← Position.after_behind]
    exact congrArg (Position.after · ahead) (Position.after_behind [] passed)
  rw [hbehind]
  exact ⟨Nat.le_add_right .., Nat.add_le_add_left (hfront.sublist.count_le _) 1⟩

theorem Scanner.newline_not_mem_text {source : String} {t : Token} (h : .ok t ∈ (ofSource source).items)
    (heof : t.kind ≠ .eof) (hkind : t.kind ≠ .stringLiteral) : '\n' ∉ t.text.toList := by
  obtain ⟨-, d, -, -, hnext⟩ := Cursor.exists_next_of_mem_items _ h
  obtain ⟨-, cs, -, -, hend | ⟨lexeme, rest, hread⟩⟩ := Cursor.token_of_next hnext
  · exact absurd hend heof
  · exact hread.newline_not_mem_text hkind

theorem Scanner.newline_not_mem_error {source : String} {e : LexicalError}
    (h : .error e ∈ (ofSource source).items) : '\n' ∉ e.text.toList := by
  obtain ⟨-, d, -, -, hnext⟩ := Cursor.exists_next_of_mem_items _ h
  obtain ⟨-, cs, -, -, hheads⟩ := Cursor.fault_of_next hnext
  exact LexicalError.newline_not_mem_text hheads

/-- The last item of a source is the end of the input or an error. -/
theorem Scanner.exists_isLast (source : String) : ∃ x ∈ (ofSource source).items, x.isLast = true := by
  obtain ⟨ts, -, ⟨e, hitems⟩ | ⟨p, hitems⟩⟩ := items_cases source
  · exact ⟨.error e, by simp [hitems], rfl⟩
  · exact ⟨.ok (Token.endOfInput p), by simp [hitems], rfl⟩

/-- **What is wrong with a source is wrong at an item of it**: a lexical error is the
item, and a syntax error is about the token there, or the end of the input. -/
theorem parseSource_item {source : String} {e : ParseError} (h : parseSource source = .error e) :
    (∃ e', .error e' ∈ (Scanner.ofSource source).items ∧ e = .lexical e') ∨
      ∃ t x, .ok t ∈ (Scanner.ofSource source).items ∧
        e = .grammar ⟨Item.token? (.ok t), x, t.position⟩ := by
  obtain ⟨k, x, hfails, he⟩ := exists_fails h
  have hk : k < (Scanner.ofSource source).items.length := by
    refine Nat.lt_of_le_of_lt hfails.le_tokens ?_
    rw [TokenStream.ofItems, TokenStream.length_tokens_ofItemsAfter]
    exact List.findIdx_lt_length_of_exists (Scanner.exists_isLast source)
  have hget := List.getElem?_eq_getElem hk
  have hmem := List.getElem_mem hk
  cases hitem : (Scanner.ofSource source).items[k] with
  | error e' =>
    rw [hitem] at hget hmem
    exact .inl ⟨e', hmem, by rw [he, refusalAfter, hget]⟩
  | ok t =>
    rw [hitem] at hget hmem
    exact .inr ⟨t, x, hmem, by rw [he, refusalAfter, positionAfter, hget]; rfl⟩

/-! ### Errors of a source -/

/-- The error tells in one line what is wrong with the source, and in which of its
lines. -/
structure ParseError.Diagnoses (source : String) (e : ParseError) : Prop where
  oneLine : '\n' ∉ e.message.toList
  namesLine : ∃ front back : String,
    e.message = front ++ ("line " ++ Decimal.natText e.position.line) ++ back
  line : 1 ≤ e.position.line ∧ e.position.line ≤ 1 + source.toList.count '\n'
  /-- A syntax error is where the token is that it is about, or the end of the input. -/
  token : ∀ g, e = .grammar g → ∃ t : Token, .ok t ∈ (Scanner.ofSource source).items ∧
    g.position = t.position ∧ (g.found = some t ∧ t.kind ≠ .eof ∨ g.found = none ∧ t.kind = .eof)

/-- **Diagnostics are one line and carry a real line number.** -/
theorem parseSource_diagnoses {source : String} {e : ParseError} (h : parseSource source = .error e) :
    e.Diagnoses source := by
  rcases parseSource_item h with ⟨e, hmem, rfl⟩ | ⟨t, x, hmem, rfl⟩
  · exact {
      oneLine := LexicalError.newline_not_mem_message (Scanner.newline_not_mem_error hmem)
      namesLine := ParseError.message_names_line _
      line := Scanner.line_of_mem_items hmem
      token := fun g hg => nomatch hg }
  · have hfound : Item.token? (.ok t) = some t ∧ t.kind ≠ .eof ∨
        Item.token? (.ok t) = none ∧ t.kind = .eof := by
      by_cases heof : t.kind = .eof
      · exact .inr ⟨if_pos heof, heof⟩
      · exact .inl ⟨if_neg heof, heof⟩
    refine ⟨?_, ParseError.message_names_line _, Scanner.line_of_mem_items hmem, ?_⟩
    · refine SyntaxError.newline_not_mem_message fun u hu => ?_
      rcases hfound with ⟨hsome, heof⟩ | ⟨hnone, -⟩
      · obtain rfl := Option.some.inj (hsome.symm.trans hu)
        exact Token.newline_not_mem_describe (Scanner.newline_not_mem_text hmem heof)
      · exact nomatch hnone.symm.trans hu
    · intro g hg
      obtain rfl := ParseError.grammar.inj hg
      exact ⟨t, hmem, rfl, hfound⟩

/-- A string with a newline in it, where a name should be, is shown on one line. -/
theorem parseSource_string_diagnosed :
    parseSource "fun\n\"a\\nb\"" =
        .error (.grammar ⟨some ⟨.stringLiteral, "a\nb", ⟨2, 1⟩⟩, .token .ident .functionName, ⟨2, 1⟩⟩) ∧
      ParseError.Diagnoses "fun\n\"a\\nb\""
        (.grammar ⟨some ⟨.stringLiteral, "a\nb", ⟨2, 1⟩⟩, .token .ident .functionName, ⟨2, 1⟩⟩) := by
  have h : parseSource "fun\n\"a\\nb\"" = .error (.grammar
      ⟨some ⟨.stringLiteral, "a\nb", ⟨2, 1⟩⟩, .token .ident .functionName, ⟨2, 1⟩⟩) :=
    (congrArg parse (Scanner.items_eq_itemsWithin _)).trans (by decide +kernel)
  exact ⟨h, parseSource_diagnoses h⟩

end SyntaxGraph
