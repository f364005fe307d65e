/-
# Scanning undoes writing

Legal tokens are given by their kinds and texts. They are written one after the
other, each with a separator behind it that starts with a blank and goes on with
any blanks and closed comments. Whatever the separators are, scanning gives back
the kinds and the texts.

Key definitions: `Token.IsLegal`, `Token.spell`, `Token.IsSeparator`, `Placed`.
Key theorems: `Scanner.tokens_placed`.
-/
import SyntaxGraph.Proofs.Token.LongestMatch
import SyntaxGraph.Proofs.Token.Written

namespace SyntaxGraph
namespace Token

/-- Tokens that a source text can have: strings with any text, and the lexemes
of the other kinds, integers as far as they fit a word. -/
inductive IsLegal : Kind → String → Prop where
  | string {text : String} : IsLegal .stringLiteral text
  | lexeme {kind : Kind} {text : String} : kind ≠ .stringLiteral → IsLexeme kind text.toList →
      (kind = .intLiteral → Decimal.value text.toList < 2 ^ 63) → IsLegal kind text

/-- How a token is written: a string with escapes and between quotes, any other
token by its text. -/
def spell (kind : Kind) (text : String) : List Char :=
  if kind = .stringLiteral then literal text else text.toList

theorem IsLexeme.isSpelling {kind : Kind} {l : List Char} (h : IsLexeme kind l)
    (hkind : kind ≠ .stringLiteral) (hvalue : kind = .intLiteral → Decimal.value l < 2 ^ 63) :
    IsSpelling kind (String.ofList l) l := by
  rcases h.cases with ⟨hw, rfl⟩ | ⟨hk, rfl⟩ | ⟨rfl, hds⟩ | ⟨rfl, hm⟩ | ⟨hstring, -⟩
  · exact .word hw
  · rw [String.ofList_toList]
    exact .symbol hk
  · exact .int hds (hvalue rfl)
  · exact .float hm
  · exact absurd hstring hkind

theorem IsLegal.isSpelling {kind : Kind} {text : String} (h : IsLegal kind text) :
    IsSpelling kind text (spell kind text) := by
  cases h with
  | string => exact .string
  | lexeme hkind hlexeme hvalue =>
    have hspelling := hlexeme.isSpelling hkind hvalue
    rw [String.ofList_toList] at hspelling
    rwa [spell, if_neg hkind]

/-- Blanks, line comments with their newlines, and closed block comments. -/
inductive IsClosedGap : List Char → Prop where
  | nil : IsClosedGap []
  | blank {c : Char} {cs : List Char} : Text.isBlank c = true → IsClosedGap cs → IsClosedGap (c :: cs)
  | line {body cs : List Char} : '\n' ∉ body → IsClosedGap cs →
      IsClosedGap ('/' :: '/' :: (body ++ '\n' :: cs))
  /-- The `*/` is the first one behind the `/*`. -/
  | block {body cs : List Char} : ¬ ['*', '/'] <:+: body ++ ['*'] → IsClosedGap cs →
      IsClosedGap ('/' :: '*' :: (body ++ '*' :: '/' :: cs))

theorem IsClosedGap.isGap {g : List Char} (h : IsClosedGap g) (rest : List Char) : IsGap g rest := by
  induction h with
  | nil => exact .nil
  | blank hc _ ih => exact .cons (.blank hc) ih
  | @line body cs hbody _ ih =>
    have := IsGap.cons (.line hbody) ih
    simpa using this
  | @block body cs hbody _ ih =>
    have := IsGap.cons (.block hbody) ih
    simpa using this

/-- A blank, and then any blanks and closed comments. -/
inductive IsSeparator : List Char → Prop where
  | mk {c : Char} {cs : List Char} : Text.isBlank c = true → IsClosedGap cs → IsSeparator (c :: cs)

theorem IsSeparator.isGap {s : List Char} (h : IsSeparator s) (rest : List Char) : IsGap s rest := by
  obtain ⟨hc, hcs⟩ := h
  exact (IsClosedGap.blank hc hcs).isGap rest

/-- A separator keeps apart what is behind it. -/
theorem IsSeparator.apart {s : List Char} (h : IsSeparator s) (rest : List Char) :
    Apart (s ++ rest) := by
  obtain ⟨hc, -⟩ := h
  rintro d ⟨⟩
  exact hc

end Token

/-- A token to be written, with the separator behind it. -/
structure Placed where
  kind : Token.Kind
  text : String
  separator : List Char

namespace Placed

/-- The characters of placed tokens. -/
def source (ws : List Placed) : List Char :=
  ws.flatMap fun w => Token.spell w.kind w.text ++ w.separator

theorem source_cons (w : Placed) (ws : List Placed) :
    source (w :: ws) = Token.spell w.kind w.text ++ (w.separator ++ source ws) := by
  simp [source]

/-- Placed tokens spell a text, behind any gap. -/
theorem spelled (ws : List Placed)
    (hws : ∀ w ∈ ws, Token.IsLegal w.kind w.text ∧ Token.IsSeparator w.separator) :
    ∀ first, Token.IsGap first (source ws) →
      Spelled (first ++ source ws) (ws.map fun w => (w.kind, w.text)) := by
  induction ws with
  | nil =>
    intro first hfirst
    rw [source, List.flatMap_nil, List.append_nil]
    exact .nil hfirst
  | cons w ws ih =>
    intro first hfirst
    obtain ⟨⟨hlegal, hseparator⟩, hrest⟩ := List.forall_mem_cons.mp hws
    rw [source_cons] at hfirst ⊢
    exact .cons hfirst hlegal.isSpelling ((hseparator.apart _).ends _)
      (ih hrest _ (hseparator.isGap _))

end Placed

theorem mapM_id_ok {ε α : Type} : ∀ as : List α,
    (as.map Except.ok).mapM id = (.ok as : Except ε (List α))
  | [] => rfl
  | a :: as => by
    rw [List.map_cons, List.mapM_cons, mapM_id_ok as]
    rfl

/-- **Scanning undoes writing, whatever the layout.** -/
theorem Scanner.tokens_placed {first : List Char} {ws : List Placed}
    (hfirst : Token.IsGap first (Placed.source ws))
    (hws : ∀ w ∈ ws, Token.IsLegal w.kind w.text ∧ Token.IsSeparator w.separator) :
    ∃ (ts : List Token) (p : Position),
      (Scanner.ofSource (String.ofList (first ++ Placed.source ws))).tokens =
        .ok (ts ++ [Token.endOfInput p]) ∧
      ts.map (fun t => (t.kind, t.text)) = ws.map (fun w => (w.kind, w.text)) := by
  obtain ⟨ts, p, hitems, htexts⟩ := (Placed.spelled ws hws first hfirst).items_eq
    ⟨.start, (String.ofList (first ++ Placed.source ws)).toList⟩ (String.toList_ofList ..)
  refine ⟨ts, p, ?_, htexts⟩
  have hall : (Scanner.ofSource (String.ofList (first ++ Placed.source ws))).items =
      (ts ++ [Token.endOfInput p]).map .ok := by
    rw [List.map_append]
    exact hitems
  rw [Scanner.tokens, hall, mapM_id_ok]

/-- A keyword, a float and a string, with comments between them that hold stars
and slashes. -/
def Placed.commented : List Placed :=
  [⟨.whileWord, "WHILE", " //*\n".toList⟩, ⟨.floatLiteral, ".5e3", [' ']⟩,
    ⟨.stringLiteral, "a\"", "\t/**/".toList⟩]

theorem Scanner.tokens_commented :
    ∃ (ts : List Token) (p : Position),
      (Scanner.ofSource "/*\"*/WHILE //*\n.5e3 \"a\\\"\"\t/**/").tokens =
        .ok (ts ++ [Token.endOfInput p]) ∧
      ts.map (fun t => (t.kind, t.text)) =
        [(.whileWord, "WHILE"), (.floatLiteral, ".5e3"), (.stringLiteral, "a\"")] := by
  have hquote : Token.IsClosedGap "/*\"*/".toList :=
    @Token.IsClosedGap.block ['"'] [] (by decide) .nil
  have hline : Token.IsClosedGap "//*\n".toList :=
    @Token.IsClosedGap.line ['*'] [] (by decide) .nil
  have hblock : Token.IsClosedGap "/**/".toList :=
    @Token.IsClosedGap.block [] [] (by decide) .nil
  have hfloat : Token.IsFloat ".5e3".toList :=
    @Token.IsFloat.fraction ['5'] ['e', '3'] (by decide)
      (.inr (@Token.IsExponent.mk 'e' [] ['3'] (.inl rfl) (.inl rfl) (by decide)))
  have hlegal : ∀ w ∈ Placed.commented,
      Token.IsLegal w.kind w.text ∧ Token.IsSeparator w.separator := by
    simp only [Placed.commented, List.forall_mem_cons]
    exact ⟨⟨.lexeme (by decide) (.upper (by decide)) nofun, .mk (by decide) hline⟩,
      ⟨.lexeme (by decide) (.float hfloat) nofun, .mk (by decide) .nil⟩,
      ⟨.string, .mk (by decide) hblock⟩, nofun⟩
  have hsource : String.ofList ("/*\"*/".toList ++ Placed.source Placed.commented) =
      "/*\"*/WHILE //*\n.5e3 \"a\\\"\"\t/**/" := by
    cbv
  have h := Scanner.tokens_placed (hquote.isGap _) hlegal
  rwa [hsource] at h

end SyntaxGraph
