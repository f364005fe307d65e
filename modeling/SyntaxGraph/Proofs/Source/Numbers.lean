/-
# Numbers of a source

The scanner and the grammar read numbers in two places, and they agree. What the
scanner makes an integer, digits whose value fits a word, the grammar takes as that
value. What it makes a float, the grammar reads as one. So no parse of a source ends
with a literal that is not valid: digits that do not fit a word are an error of the
scanner already, however many they are.

Key definitions: `Token.Denotes`.
Key theorems: `Token.IsFloat.readFloat_isSome`, `Cursor.next_of_digits`,
`TokenStream.expects_no_literal`, `numbers_agree`.
-/
import SyntaxGraph.Proofs.Source.Diagnostics
import SyntaxGraph.Proofs.Source.Spelled

namespace SyntaxGraph

/-! ### Reading floats -/

namespace Decimal

theorem readDigits_point {ds fs x : List Char} (hds : ∀ c ∈ ds, c.isDigit = true)
    (hfs : ∀ c ∈ fs, c.isDigit = true) (hx : x.head?.any Char.isDigit = false)
    (hne : ds ≠ [] ∨ fs ≠ []) : readDigits (ds ++ '.' :: (fs ++ x)) = some (ds, fs, x) := by
  have hpoint : ('.' :: (fs ++ x)).head?.any Char.isDigit = false := rfl
  simp only [readDigits, takeWhile_append_of_head hds hpoint, dropWhile_append_of_head hds hpoint,
    takeWhile_append_of_head hfs hx, dropWhile_append_of_head hfs hx]
  rcases hne with hne | hne <;> simp [hne]

/-- Without a point, the digits in front of the exponent are read. -/
theorem readDigits_exponent {ds x : List Char} (hds : isDigits ds = true) (hx : Token.IsExponent x) :
    readDigits (ds ++ x) = some (ds, [], x) := by
  obtain ⟨hne, hall⟩ := Token.isDigits_iff.mp hds
  simp only [readDigits, takeWhile_append_of_head hall hx.head, dropWhile_append_of_head hall hx.head]
  obtain ⟨rfl | rfl, -, -⟩ := hx <;> simp [hne]

end Decimal

namespace Token

open Decimal

theorem IsExponent.readExponent_isSome {x : List Char} (hx : IsExponent x) :
    (readExponent x).isSome = true := by
  obtain ⟨he, hsign, hds⟩ := hx
  rename_i e sign ds
  have hread : ∃ minus, readSign (sign ++ ds) = (minus, ds) := by
    rcases hsign with rfl | rfl | rfl
    · exact ⟨false, readSign_of_isDigits hds⟩
    · exact ⟨false, rfl⟩
    · exact ⟨true, rfl⟩
  obtain ⟨minus, hminus⟩ := hread
  have he' : (e = 'e' || e = 'E') = true := by simpa using he
  simp [readExponent, he', hminus, hds]

theorem IsFloat.readSign_eq {m : List Char} (h : IsFloat m) : readSign m = (false, m) := by
  obtain ⟨c, cs, rfl, hstart⟩ := IsNumber.exists_cons (.inr h) List.prefix_rfl
  have hc : ∀ d : Char, d.isDigit = false → d ≠ '.' → c ≠ d := by
    rintro d hdigit hpoint rfl
    simp [startsNumeral, hdigit, hpoint] at hstart
  exact readSign_cons (hc _ (by decide) (by decide)) (hc _ (by decide) (by decide)) cs

/-- A float is digits with a point, an exponent or both, and so it is read. -/
theorem IsFloat.exists_readDigits {m : List Char} (h : IsFloat m) :
    ∃ ds fs x, readDigits m = some (ds, fs, x) ∧ (readExponent x).isSome = true := by
  have hexponent : ∀ x : List Char, x = [] ∨ IsExponent x →
      x.head?.any Char.isDigit = false ∧ (readExponent x).isSome = true := by
    rintro x (rfl | hx)
    · exact ⟨rfl, rfl⟩
    · exact ⟨hx.head, hx.readExponent_isSome⟩
  cases h with
  | point hds hfs hx =>
    obtain ⟨hhead, hread⟩ := hexponent _ hx
    obtain ⟨hne, hall⟩ := isDigits_iff.mp hds
    exact ⟨_, _, _, readDigits_point hall hfs hhead (.inl hne), hread⟩
  | @fraction fs x hfs hx =>
    obtain ⟨hhead, hread⟩ := hexponent _ hx
    obtain ⟨hne, hall⟩ := isDigits_iff.mp hfs
    exact ⟨[], fs, x, readDigits_point (List.forall_mem_nil _) hall hhead (.inr hne), hread⟩
  | exponent hds hx => exact ⟨_, _, _, readDigits_exponent hds hx, hx.readExponent_isSome⟩

/-- Every float is read as a number. -/
theorem IsFloat.readFloat_isSome {m : List Char} (h : IsFloat m) : (readFloat m).isSome = true := by
  obtain ⟨ds, fs, x, hdigits, hread⟩ := h.exists_readDigits
  have hmagnitude : (readMagnitude m).isSome = true := by
    simp only [readMagnitude, hdigits]
    split
    · rfl
    split
    · rfl
    · rwa [Option.isSome_map]
  simp only [readFloat, h.readSign_eq]
  rwa [Option.isSome_map]

end Token

/-! ### Taking literals -/

open Grammar in
/-- Where a primary stands, the grammar takes the token as the number; a lexical
error right behind the token comes first. -/
def Token.Denotes (t : Token) (n : Number) : Prop :=
  ∀ (limit : Nat) (next : Level) (s : TokenStream),
    primary limit (some next) (s.push [t]) = (do settle; return .number n : Parser Expr) s

namespace Grammar

open TokenStream

/-- A token that is accepted is taken, and then the stream behind it is settled. -/
theorem accept?_bind_push {α : Type} {k : Token.Kind} {t : Token} (h : t.kind = k)
    (g : Option Token → Parser α) (s : TokenStream) :
    (accept? k >>= g) (s.push [t]) = (settle >>= fun _ => g (some t)) s := by
  rw [bind_run, accept?, chooseToken_push (if_pos h), bind_run, bind_run]
  cases settle s <;> rfl

theorem denotes_integer {t : Token} (hkind : t.kind = .intLiteral)
    (hds : Decimal.isDigits t.text.toList = true) (hvalue : Decimal.value t.text.toList < 2 ^ 63) :
    t.Denotes (.int (Decimal.value t.text.toList)) := by
  intro limit next s
  show primaryWithin next (s.push [t]) = _
  rw [primaryWithin, accept?_bind_push hkind]
  simp only [integer, Token.readInt_digits hds hvalue]

theorem denotes_float {t : Token} (hkind : t.kind = .floatLiteral) {x : Float}
    (hx : Decimal.readFloat t.text.toList = some x) : t.Denotes (.float x) := by
  intro limit next s
  show primaryWithin next (s.push [t]) = _
  rw [primaryWithin, bind_of_ok (accept?_none (by simp [hkind]))]
  refine (accept?_bind_push hkind _ s).trans ?_
  simp only [float, hx]

end Grammar

/-! ### No invalid literals -/

/-- A hint that names a token starts with a quote, or with the name of a kind. -/
theorem Expectation.head_text_token (kind : Token.Kind) (place : Place) :
    ((token kind place).text.toList.head? ≠ some 'a') := by
  have hkind : ∃ c cs, kind.describe.toList = c :: cs ∧ c ≠ 'a' := by
    cases kind <;> simp [Token.Kind.describe, Token.Kind.spelling]
  obtain ⟨c, cs, hlist, hc⟩ := hkind
  simp [text, hlist, hc]

theorem Expectation.text_ne_of_ne {x : Expectation} (hint : x ≠ .integer) (hfloat : x ≠ .float) :
    x.text ≠ "a valid integer literal" ∧ x.text ≠ "a valid float literal" := by
  cases x with
  | token kind place =>
    have hhead := head_text_token kind place
    exact ⟨fun h => hhead (by rw [h]; rfl), fun h => hhead (by rw [h]; rfl)⟩
  | integer => exact absurd rfl hint
  | float => exact absurd rfl hfloat
  | nesting limit => simp [text, ← String.toList_inj]
  | _ => simp [text]

namespace TokenStream

theorem mem_items_of_mem_tokens (last : Position) (items : List Item) {t : Token}
    (h : t ∈ (ofItemsAfter last items).tokens) : .ok t ∈ items := by
  induction last, items using ofItemsAfter.induct with
  | case1 last => simp [ofItemsAfter] at h
  | case2 last e items => simp [ofItemsAfter] at h
  | case3 last u items hu => simp [ofItemsAfter_eof hu] at h
  | case4 last u items hu ih =>
    rw [ofItemsAfter_token hu] at h
    rcases List.mem_cons.mp h with rfl | h
    · exact List.mem_cons_self ..
    · exact List.mem_cons_of_mem _ (ih h)

/-- Where all literals read as numbers, no error is about a literal. -/
theorem expects_no_literal {limit : Nat} {s : TokenStream} {e : SyntaxError}
    (hread : ∀ t ∈ s.tokens, t.Readable) (h : s.parse limit = .error (.grammar e)) :
    e.expected ≠ .integer ∧ e.expected ≠ .float := by
  have hmirrors : Grammar.Mirrors (fun _ => False) (Grammar.program limit) (Grammar.program limit) :=
    Grammar.program_mirrors (Nat.le_refl _) (.inr rfl)
  have hmirror := hmirrors s
  rw [parse_eq_error.mp h] at hmirror
  obtain ⟨x, ts, r, rfl, he, hunread, -⟩ := hmirror
  have hreach : x.reach ≠ 2 := by
    intro hx
    obtain ⟨t, ht, hbad⟩ := hunread hx
    exact hbad (hread t (List.mem_append_right ts (List.mem_of_mem_head? ht)))
  obtain rfl : e.expected = x := by
    rcases r.refusal_cases x with ⟨e', he'⟩ | ⟨e', he', hx⟩
    · cases he.trans he'
    · obtain rfl := ParseError.grammar.inj (he.trans he')
      exact hx
  constructor <;> intro hx <;> rw [hx] at hreach <;> exact hreach rfl

end TokenStream

/-! ### Literals of sources -/

namespace Scanner

variable {source : String} {t : Token}

theorem int_of_mem_items (h : .ok t ∈ (ofSource source).items) (hkind : t.kind = .intLiteral) :
    Decimal.isDigits t.text.toList = true ∧ Decimal.value t.text.toList < 2 ^ 63 := by
  have hspelled := Cursor.isSpelled_of_mem_items _ t h (by simp [hkind])
  rw [Token.terminal_int hkind] at hspelled
  exact Token.IsSpelling.of_int hspelled rfl

theorem float_of_mem_items (h : .ok t ∈ (ofSource source).items) (hkind : t.kind = .floatLiteral) :
    Token.IsFloat t.text.toList := by
  have hspelled := Cursor.isSpelled_of_mem_items _ t h (by simp [hkind])
  rw [Token.terminal_float hkind] at hspelled
  exact Token.IsSpelling.of_float hspelled rfl

theorem readable_of_mem_items (h : .ok t ∈ (ofSource source).items) : t.Readable where
  left hkind := by
    obtain ⟨hds, hvalue⟩ := int_of_mem_items h hkind
    rw [Token.readInt_digits hds hvalue]
    rfl
  right hkind := (float_of_mem_items h hkind).readFloat_isSome

end Scanner

/-- No source is refused for a literal that the scanner has passed. -/
theorem parseSource_expects_no_literal {source : String} {e : SyntaxError}
    (h : parseSource source = .error (.grammar e)) :
    e.expected.text ≠ "a valid integer literal" ∧ e.expected.text ≠ "a valid float literal" := by
  have hread : ∀ t ∈ (TokenStream.ofItems (Scanner.ofSource source).items).tokens, t.Readable :=
    fun t ht => Scanner.readable_of_mem_items (TokenStream.mem_items_of_mem_tokens .start _ ht)
  obtain ⟨hint, hfloat⟩ := TokenStream.expects_no_literal hread h
  exact Expectation.text_ne_of_ne hint hfloat

/-! ### Digits that do not fit a word -/

/-- Digits that are no part of a float are the longest number. -/
theorem Token.isLongest_digits {ds rest : List Char} (hds : Decimal.isDigits ds = true)
    (hrest : rest.head?.any Char.isDigit = false) (hfloat : ∀ m, m <+: ds ++ rest → ¬ IsFloat m) :
    IsLongest IsNumber ds (ds ++ rest) where
  isPrefix := List.prefix_append ..
  holds := .inl hds
  le m hm hnumber := by
    rcases hnumber with hdigits | hno
    · have hrun := isPrefix_takeWhile (isDigits_iff.mp hdigits).2 hm
      rw [takeWhile_append_of_head (isDigits_iff.mp hds).2 hrest] at hrun
      exact hrun.length_le
    · exact absurd hno (hfloat m hm)

open Token in
/-- The limit of integers is exact. Behind a gap, a whole run of digits that is no
part of a float is an integer if it fits a word and nothing spoils it, whatever its
length is, and else a malformed number with all that follows directly. -/
theorem Cursor.next_of_digits {c : Cursor} {ds rest : List Char}
    (hc : c.rest = gap c.rest ++ (ds ++ rest)) (hds : Decimal.isDigits ds = true)
    (hrest : rest.head?.any Char.isDigit = false) (hfloat : ∀ m, m <+: ds ++ rest → ¬ IsFloat m) :
    c.next =
      if Decimal.value ds < 2 ^ 63 ∧ rest.head?.any spoilsNumber = false then
        (.ok ⟨.intLiteral, String.ofList ds, c.position.after (gap c.rest)⟩,
          some ⟨(c.position.after (gap c.rest)).after ds, rest⟩)
      else (.error ⟨.invalidNumber
          (String.ofList (ds ++ rest.takeWhile fun c => isWordChar c || c = '.')),
        c.position.after (gap c.rest)⟩, none) := by
  have hlongest := isLongest_digits hds hrest hfloat
  rw [next_of_reading hc rfl, readLexeme_number hlongest, readNumeral_eq hlongest]
  cases hspoils : rest.head?.any spoilsNumber with
  | true =>
    rw [if_pos rfl, if_neg (by simp)]
    rfl
  | false =>
    rw [if_neg (by decide), hds, if_neg (by decide)]
    by_cases hvalue : Decimal.value ds < 2 ^ 63
    · rw [if_pos hvalue, if_pos ⟨hvalue, rfl⟩]
      rfl
    · rw [if_neg hvalue, if_neg (fun h => hvalue h.1), takeWhile_of_not_spoils hspoils hrest,
        List.append_nil]
      rfl

/-! ### Scanner and grammar -/

open Token in
/-- **The scanner and the grammar agree on numbers**:

* an integer of a source is digits whose value fits a word, and the grammar takes it as
  that value;
* a float of a source is digits with a point, an exponent or both, and the grammar takes
  it as the float that it reads as;
* so no syntax error of a source is about a literal that is not valid;
* wherever a scanner stands, digits that are no part of a float are an integer if they fit
  a word and nothing spoils them, and a malformed number if not, whatever their length is. -/
theorem numbers_agree (source : String) :
    (∀ t, .ok t ∈ (Scanner.ofSource source).items → t.kind = .intLiteral →
      Decimal.isDigits t.text.toList = true ∧ Decimal.value t.text.toList < 2 ^ 63 ∧
        t.Denotes (.int (Decimal.value t.text.toList))) ∧
    (∀ t, .ok t ∈ (Scanner.ofSource source).items → t.kind = .floatLiteral →
      IsFloat t.text.toList ∧ ∃ x, Decimal.readFloat t.text.toList = some x ∧ t.Denotes (.float x)) ∧
    (∀ e, parseSource source = .error (.grammar e) →
      e.expected.text ≠ "a valid integer literal" ∧ e.expected.text ≠ "a valid float literal") ∧
    ∀ (c : Cursor) (ds rest : List Char), c.rest = gap c.rest ++ (ds ++ rest) →
      Decimal.isDigits ds = true → rest.head?.any Char.isDigit = false →
      (∀ m, m <+: ds ++ rest → ¬ IsFloat m) →
      c.next =
        if Decimal.value ds < 2 ^ 63 ∧ rest.head?.any spoilsNumber = false then
          (.ok ⟨.intLiteral, String.ofList ds, c.position.after (gap c.rest)⟩,
            some ⟨(c.position.after (gap c.rest)).after ds, rest⟩)
        else (.error ⟨.invalidNumber
            (String.ofList (ds ++ rest.takeWhile fun c => isWordChar c || c = '.')),
          c.position.after (gap c.rest)⟩, none) := by
  refine ⟨fun t ht hkind => ?_, fun t ht hkind => ?_, fun e he => parseSource_expects_no_literal he,
    fun c ds rest hc hds hrest hfloat => Cursor.next_of_digits hc hds hrest hfloat⟩
  · obtain ⟨hds, hvalue⟩ := Scanner.int_of_mem_items ht hkind
    exact ⟨hds, hvalue, Grammar.denotes_integer hkind hds hvalue⟩
  · have hfloat := Scanner.float_of_mem_items ht hkind
    obtain ⟨x, hx⟩ := Option.isSome_iff_exists.mp hfloat.readFloat_isSome
    exact ⟨hfloat, x, hx, Grammar.denotes_float hkind hx⟩

/-- Zeros in front do not count, and the first number that does not fit a word is one more
than the last that does. -/
theorem numbers_agree_at_limit :
    Token.Denotes ⟨.intLiteral, "009223372036854775807", ⟨1, 1⟩⟩ (.int 9223372036854775807) ∧
      (∃ x, Token.Denotes ⟨.floatLiteral, ".5e1", ⟨1, 23⟩⟩ (.float x)) ∧
      Cursor.next ⟨.start, "009223372036854775808".toList⟩ =
        (.error ⟨.invalidNumber "009223372036854775808", ⟨1, 1⟩⟩, none) := by
  obtain ⟨hint, hfloat, -, hdigits⟩ := numbers_agree "009223372036854775807 .5e1"
  have hitems : (Scanner.ofSource "009223372036854775807 .5e1").items =
      [.ok ⟨.intLiteral, "009223372036854775807", ⟨1, 1⟩⟩, .ok ⟨.floatLiteral, ".5e1", ⟨1, 23⟩⟩,
        .ok ⟨.eof, "", ⟨1, 27⟩⟩] :=
    (Scanner.items_eq_itemsWithin _).trans (by decide +kernel)
  refine ⟨?_, ?_, ?_⟩
  · obtain ⟨-, -, hdenotes⟩ := hint ⟨.intLiteral, "009223372036854775807", ⟨1, 1⟩⟩ (by simp [hitems]) rfl
    exact hdenotes
  · obtain ⟨-, x, -, hdenotes⟩ := hfloat ⟨.floatLiteral, ".5e1", ⟨1, 23⟩⟩ (by simp [hitems]) rfl
    exact ⟨x, hdenotes⟩
  · have hgap : Token.gap "009223372036854775808".toList = [] := Token.gap_of_gapPiece_eq_nil (by decide)
    have hds : Decimal.isDigits "009223372036854775808".toList = true := by decide +kernel
    have hno : ∀ m, m <+: "009223372036854775808".toList ++ [] → ¬ Token.IsFloat m := by
      intro m hm hfloat
      obtain ⟨d, ds, rfl, -⟩ := Token.IsNumber.exists_cons (.inr hfloat) List.prefix_rfl
      rw [List.append_nil] at hm
      have hall : ∀ c ∈ d :: ds, c.isDigit = true := fun c hc =>
        (Token.isDigits_iff.mp hds).2 c (hm.subset hc)
      have hfalse := hfloat.isDigits_eq_false
      rw [Token.isDigits_iff.mpr ⟨List.cons_ne_nil d ds, hall⟩] at hfalse
      cases hfalse
    have hnext := hdigits ⟨.start, "009223372036854775808".toList⟩ _ [] (by rw [hgap]; rfl) hds rfl hno
    rw [hgap, if_neg (by decide +kernel)] at hnext
    exact hnext

end SyntaxGraph
