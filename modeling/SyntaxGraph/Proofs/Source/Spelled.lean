/-
# Names and integers that are read from a source

The scanner makes a name of a word that is not reserved, and an integer of digits
that fit a word. So every terminal of a source has a spelling, and the names and
the integers of a program that is read from it are of that kind wherever they
stand.

Key definitions: `Element.IsSpelled`.
Key theorems: `Token.Reads.isSpelled`, `Grammar.ensures_isSpelled`, `parseSource_isSpelled`.
-/
import SyntaxGraph.Proofs.Grammar.Constituents
import SyntaxGraph.Proofs.Source.Concatenation
import SyntaxGraph.Proofs.Source.Spaced
import SyntaxGraph.Proofs.Token.LongestMatch

namespace SyntaxGraph

/-! ### Spellings -/

namespace Token

theorem IsWord.isName {w : List Char} (hw : IsWord w) (hkind : (Kind.ofWord w).getD .ident = .ident) :
    IsName (String.ofList w) := by
  have hnone : Kind.ofWord w = none := by
    cases hk : Kind.ofWord w with
    | none => rfl
    | some k =>
      rw [hk, Option.getD_some] at hkind
      exact absurd (hkind ▸ ofWord_mem hk) (by decide)
  rw [← String.toList_ofList (l := w)] at hw hnone
  exact ⟨hw, Kind.ofWord_eq_none.mp hnone⟩

theorem IsSpelling.isName {kind : Kind} {text : String} {lexeme : List Char}
    (h : IsSpelling kind text lexeme) (hkind : kind = .ident) : IsName text := by
  cases h with
  | word hw => exact hw.isName hkind
  | symbol hk => exact absurd (hkind ▸ hk) (by decide)
  | _ => cases hkind

/-- An integer is spelled with digits that fit a word. -/
theorem IsSpelling.of_int {kind : Kind} {text : String} {lexeme : List Char}
    (h : IsSpelling kind text lexeme) (hkind : kind = .intLiteral) :
    Decimal.isDigits text.toList = true ∧ Decimal.value text.toList < 2 ^ 63 := by
  cases h with
  | int hds hvalue =>
    rw [String.toList_ofList]
    exact ⟨hds, hvalue⟩
  | word =>
    have hmem := Kind.ofWord_getD_mem lexeme
    rw [hkind] at hmem
    exact absurd hmem (by decide)
  | symbol hk => exact absurd (hkind ▸ hk) (by decide)
  | _ => cases hkind

theorem IsSpelling.of_float {kind : Kind} {text : String} {lexeme : List Char}
    (h : IsSpelling kind text lexeme) (hkind : kind = .floatLiteral) : IsFloat text.toList := by
  cases h with
  | float hm =>
    rw [String.toList_ofList]
    exact hm
  | word =>
    have hmem := Kind.ofWord_getD_mem lexeme
    rw [hkind] at hmem
    exact absurd hmem (by decide)
  | symbol hk => exact absurd (hkind ▸ hk) (by decide)
  | _ => cases hkind

theorem IsSpelling.bounds {kind : Kind} {text : String} {lexeme : List Char}
    (h : IsSpelling kind text lexeme) (hkind : kind = .intLiteral) {i : Int}
    (hi : Decimal.readInt text.toList = some i) : 0 ≤ i ∧ i < 2 ^ 63 := by
  obtain ⟨hds, hvalue⟩ := h.of_int hkind
  rw [readInt_digits hds hvalue] at hi
  obtain rfl := Option.some.inj hi
  omega

/-- What is read from the front of a text shows as a terminal with a spelling. -/
theorem Reads.isSpelled {cs : List Char} {kind : Kind} {text : String} {lexeme rest : List Char}
    (h : Reads cs (.token kind text lexeme rest)) (p : Position) :
    (Token.mk kind text p).terminal.IsSpelled := by
  cases h with
  | int _ _ hds hvalue =>
    rw [terminal_int rfl]
    show IsSpelling _ (String.ofList lexeme) (String.ofList lexeme).toList
    rw [String.toList_ofList]
    exact .int hds hvalue
  | float _ _ hfloat =>
    rw [terminal_float rfl]
    show IsSpelling _ (String.ofList lexeme) (String.ofList lexeme).toList
    rw [String.toList_ofList]
    exact .float hfloat
  | string =>
    rw [terminal_string rfl]
    exact Terminal.isSpelled_string _
  | lexeme hplain hlexeme hlongest =>
    rcases hlexeme.cases_of_plain hlongest.isPrefix hplain with ⟨hw, hkind⟩ | ⟨hk, -⟩
    · rcases List.mem_cons.mp (hkind ▸ Kind.ofWord_getD_mem lexeme) with hident | hreserved
      · rw [terminal_ident hident]
        exact Terminal.isSpelled_ident (hw.isName (hkind ▸ hident))
      · rw [terminal_of_kind ((by decide : ∀ k ∈ Kind.reserved, k.isOpen = false) kind hreserved) rfl]
        exact Terminal.isSpelled_word (.inl hreserved)
    · rw [terminal_of_kind ((by decide : ∀ k ∈ Kind.symbols, k.isOpen = false) kind hk) rfl]
      exact Terminal.isSpelled_word (.inr hk)

end Token

theorem Cursor.isSpelled_of_mem_items (c : Cursor) :
    ∀ t, .ok t ∈ c.items → t.kind ≠ .eof → t.terminal.IsSpelled := by
  intro t ht hkind
  obtain ⟨-, d, -, -, hnext⟩ := c.exists_next_of_mem_items ht
  obtain ⟨-, cs, -, -, heof | ⟨lexeme, rest, hread⟩⟩ := token_of_next hnext
  · exact absurd heof hkind
  · exact hread.isSpelled t.position

/-- The terminals of a source have spellings. -/
theorem Scanner.isSpelled_of_parseSource {a : String} {p : Program} (h : parseSource a = .ok p) :
    ∃ d : ProgramPhrase, d.Grammatical ∧ d.tree = p ∧ ∀ x ∈ d.yield, x.IsSpelled := by
  obtain ⟨ts, q, d, hts, hitems, hd, htree, hyield⟩ := exists_phrase h
  refine ⟨d, hd, htree, fun x hx => ?_⟩
  rw [hyield] at hx
  obtain ⟨t, ht, rfl⟩ := List.mem_map.mp hx
  have hmem : .ok t ∈ (ofSource a).items := by
    rw [hitems]
    exact List.mem_append_left _ (List.mem_map_of_mem ht)
  exact Cursor.isSpelled_of_mem_items _ t hmem (hts t ht)

/-! ### Elements -/

/-- The name or the integer that an element has, if any, can stand in a source. -/
def Element.IsSpelled : Element → Prop
  | function f => IsName f.name
  | parameter d | declaration d => IsName d.name
  | expression (.var x) | expression (.entry x _) | expression (.call x _) => IsName x
  | expression (.number (.int i)) => 0 ≤ i ∧ i < 2 ^ 63
  | _ => True

theorem Phrase.isSpelled_tree (d : Phrase) : d.Grammatical → (∀ x ∈ d.yield, x.IsSpelled) →
    (Element.expression d.tree).IsSpelled := by
  induction d using Phrase.induction with
  | step d ih =>
    intro hd hspelled
    cases d with
    | int text i => exact (hspelled _ (.head _)).bounds rfl hd
    | var x => exact (hspelled _ (.head _)).isName rfl
    | entry a i => exact (hspelled _ (.head _)).isName rfl
    | call f es => exact (hspelled _ (.head _)).isName rfl
    | parens e =>
      exact ih e (.head _) hd fun x hx => hspelled x (Phrase.yield_subset (.head _) hx)
    | _ => trivial

/-- Names and integers keep their spellings from the terminals to the tree. -/
theorem Grammar.ensures_isSpelled : Ensures Terminal.IsSpelled Element.IsSpelled where
  phrase := Phrase.isSpelled_tree
  clause _ _ _ := trivial
  typeName _ _ _ := trivial
  parameter _ _ h := (h _ (.head _)).isName rfl
  declaration _ _ h := (h _ (.head _)).isName rfl
  function f _ h := (h (.ident f.name) (.tail _ (.head _))).isName rfl
  program _ _ _ := trivial

/-- **All names and integers of a program that is read from a source can stand in a
source.** -/
theorem parseSource_isSpelled {a : String} {p : Program} (h : parseSource a = .ok p) :
    p.node.Shows Element.IsSpelled := by
  obtain ⟨d, hd, rfl, hspelled⟩ := Scanner.isSpelled_of_parseSource h
  exact Grammar.ensures_isSpelled.throughout hd hspelled

end SyntaxGraph
