/-
# Scanning written tokens

A text that is written as spelled tokens, with gaps in front of them, is scanned
as these tokens, whatever the gaps are: it is enough that no token is continued
by what stands behind it, as when each gap but the first starts with a blank.

Key definitions: `Spelled`, `Written`, `Written.source`, `Written.Legal`.
Key theorems: `Spelled.items_eq`, `Cursor.items_written`.
-/
import SyntaxGraph.Proofs.Token.Spelling

namespace SyntaxGraph

theorem Cursor.items_of_reading {c : Cursor} {gap lexeme rest : List Char} {kind : Token.Kind}
    {text : String} (hc : c.rest = gap ++ (lexeme ++ rest)) (hgap : Token.gap c.rest = gap)
    (hread : Token.readLexeme (lexeme ++ rest) = .token kind text lexeme rest) :
    c.items = .ok ⟨kind, text, c.position.after gap⟩ ::
      Cursor.items ⟨(c.position.after gap).after lexeme, rest⟩ := by
  subst hgap
  rw [Cursor.items_eq, Cursor.next_of_reading hc hread]
  rfl

theorem Cursor.items_of_isGap {c : Cursor} (hc : Token.IsGap c.rest []) :
    c.items = [.ok (Token.endOfInput (c.position.after c.rest))] := by
  have hgap : Token.gap c.rest = c.rest := by
    have hall : Token.gap (c.rest ++ []) = c.rest := hc.gap_append rfl
    rwa [List.append_nil] at hall
  have hall : c.rest = Token.gap c.rest ++ [] := by rw [hgap, List.append_nil]
  rw [Cursor.items_eq, Cursor.next_of_reading hall rfl, hgap]
  rfl

/-- The text is gaps and spellings of tokens in turn, with these kinds and texts.
What is behind a token does not go on with it. -/
inductive Spelled : List Char → List (Token.Kind × String) → Prop where
  | nil {gap : List Char} : Token.IsGap gap [] → Spelled gap []
  | cons {gap lexeme rest : List Char} {kind : Token.Kind} {text : String}
      {tokens : List (Token.Kind × String)} : Token.IsGap gap (lexeme ++ rest) →
      Token.IsSpelling kind text lexeme → Token.Ends kind rest → Spelled rest tokens →
      Spelled (gap ++ (lexeme ++ rest)) ((kind, text) :: tokens)

/-- A spelled text is scanned as it is meant: as tokens with these kinds and
texts, and then the end of the input. -/
theorem Spelled.items_eq {cs : List Char} {tokens : List (Token.Kind × String)}
    (h : Spelled cs tokens) :
    ∀ c : Cursor, c.rest = cs → ∃ (ts : List Token) (p : Position),
      c.items = ts.map .ok ++ [.ok (Token.endOfInput p)] ∧
        ts.map (fun t => (t.kind, t.text)) = tokens := by
  induction h with
  | nil hgap =>
    rintro c rfl
    exact ⟨[], _, Cursor.items_of_isGap hgap, rfl⟩
  | @cons gap lexeme rest kind text tokens hgap hspelling hrest _ ih =>
    intro c hc
    obtain ⟨hpiece, hread⟩ := hspelling.readAs hrest
    have htaken : Token.gap c.rest = gap := by
      rw [hc]
      exact hgap.gap_append hpiece
    obtain ⟨ts, p, hitems, htexts⟩ := ih ⟨(c.position.after gap).after lexeme, rest⟩ rfl
    refine ⟨⟨kind, text, c.position.after gap⟩ :: ts, p, ?_, ?_⟩
    · rw [Cursor.items_of_reading hc htaken hread, hitems]
      rfl
    · rw [List.map_cons, htexts]

/-- A token as it is written, with what stands in front of it. -/
structure Written where
  gap : List Char
  lexeme : List Char
  kind : Token.Kind
  text : String

namespace Written

/-- The characters of a row of written tokens. -/
def source (ws : List Written) : List Char :=
  ws.flatMap fun w => w.gap ++ w.lexeme

@[simp] theorem source_nil : source [] = [] := rfl

@[simp] theorem source_cons (w : Written) (ws : List Written) :
    source (w :: ws) = w.gap ++ (w.lexeme ++ source ws) := by
  simp [source]

/-- The token is spelled as it should be, behind a gap that every text may
follow. -/
structure Legal (w : Written) : Prop where
  gap : ∀ rest, Token.IsGap w.gap rest
  spelling : Token.IsSpelling w.kind w.text w.lexeme

/-- The gap keeps the token apart from the one before. -/
structure Parted (w : Written) : Prop where
  gap_ne_nil : w.gap ≠ []
  gap : Token.Apart w.gap

/-- Behind a token the text keeps apart, up to its end. -/
theorem apart_source {ws : List Written} (hws : ∀ w ∈ ws, w.Parted) {last : List Char}
    (hlast : Token.Apart last) : Token.Apart (source ws ++ last) := by
  cases ws with
  | nil => exact hlast
  | cons w ws =>
    have hw : w.Parted := hws w (List.mem_cons_self ..)
    obtain ⟨c, cs, hc⟩ := List.exists_cons_of_ne_nil hw.gap_ne_nil
    have hgap := hw.gap
    rw [hc] at hgap
    intro d hd
    rw [source_cons, hc] at hd
    exact hgap d hd

end Written

open Written in
/-- Written tokens spell a text. -/
theorem Written.spelled {last : List Char} (hend : Token.IsGap last []) (hlast : Token.Apart last)
    (ws : List Written) (hlegal : ∀ w ∈ ws, w.Legal) (hparted : ∀ w ∈ ws.tail, w.Parted) :
    Spelled (source ws ++ last) (ws.map fun w => (w.kind, w.text)) := by
  induction ws with
  | nil => exact .nil hend
  | cons w ws ih =>
    have hw : w.Legal := hlegal w (List.mem_cons_self ..)
    rw [source_cons, List.append_assoc, List.append_assoc]
    refine .cons (hw.gap _) hw.spelling ((apart_source hparted hlast).ends _) (ih ?_ ?_)
    · exact fun x hx => hlegal x (List.mem_cons_of_mem _ hx)
    · exact fun x hx => hparted x (List.mem_of_mem_tail hx)

open Written in
/-- Written tokens are scanned as they are meant: with the kinds and the
texts that they spell, and then the end of the input. -/
theorem Cursor.items_written {last : List Char} (hend : Token.IsGap last [])
    (hlast : Token.Apart last) (ws : List Written) (c : Cursor) (hc : c.rest = source ws ++ last)
    (hlegal : ∀ w ∈ ws, w.Legal) (hparted : ∀ w ∈ ws.tail, w.Parted) :
    ∃ (ts : List Token) (p : Position), c.items = ts.map .ok ++ [.ok (Token.endOfInput p)] ∧
      ts.map (fun t => (t.kind, t.text)) = ws.map (fun w => (w.kind, w.text)) :=
  (spelled hend hlast ws hlegal hparted).items_eq c hc

end SyntaxGraph
