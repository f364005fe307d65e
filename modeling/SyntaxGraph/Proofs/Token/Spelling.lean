/-
# Reading spelled tokens

Words, symbols, numbers and strings have spellings: a word and a number are
spelled by their characters, a symbol by its one spelling, a string by its text
with escapes, between quotes. Where no character follows that would go on with
it, a spelling is read as the token that it spells; so it is where a blank or
nothing follows.

Key definitions: `Token.Apart`, `Token.IsWord`, `Token.literal`, `Token.IsSpelling`,
`Token.Kind.continuedBy`, `Token.Ends`.
Key theorems: `Token.Kind.ofWord_eq_some`, `Token.stringBody_escaped`,
`Token.IsSpelling.readAs`.
-/
import SyntaxGraph.Proofs.Text.Delimited
import SyntaxGraph.Proofs.Token.Numeral

namespace SyntaxGraph
namespace Token

/-! ### Blanks -/

/-- The text keeps apart from what is in front of it: it is empty or starts
with a blank. -/
def Apart (rest : List Char) : Prop :=
  ∀ c ∈ rest.head?, Text.isBlank c = true

theorem apart_nil : Apart [] := nofun

/-- Of the characters of ASCII, those above the space are not blank. -/
theorem isBlank_of_toNat {c : Char} (h : 0x20 < c.toNat) (h' : c.toNat < 0x7F) :
    Text.isBlank c = false := by
  simp only [Text.isBlank, Text.Ranges.mem, Text.blanks, List.any_cons, List.any_nil, Bool.or_false,
    Bool.or_eq_false_iff, Bool.and_eq_false_iff, decide_eq_false_iff_not]
  omega

theorem isAlpha_iff {c : Char} : c.isAlpha = true ↔
    (65 ≤ c.toNat ∧ c.toNat ≤ 90) ∨ (97 ≤ c.toNat ∧ c.toNat ≤ 122) := by
  have hupper : c.isUpper = true ↔ 65 ≤ c.toNat ∧ c.toNat ≤ 90 := decide_eq_true_iff
  have hlower : c.isLower = (decide (97 ≤ c.toNat) && decide (c.toNat ≤ 122)) := rfl
  have hboth : c.isAlpha = (c.isUpper || c.isLower) := rfl
  rw [hboth, Bool.or_eq_true, hupper, hlower, Bool.and_eq_true, decide_eq_true_eq,
    decide_eq_true_eq]

theorem isBlank_of_isWordChar {c : Char} (h : isWordChar c = true) : Text.isBlank c = false := by
  simp only [isWordChar, Char.isAlphanum, Char.isDigit, Bool.or_eq_true, Bool.and_eq_true,
    decide_eq_true_eq, UInt32.le_iff_toNat_le, ge_iff_le, isAlpha_iff] at h
  have hc : c.toNat = c.val.toNat := rfl
  have h0 : '0'.val.toNat = 48 := rfl
  have h9 : '9'.val.toNat = 57 := rfl
  rcases h with h | rfl
  · exact isBlank_of_toNat (by omega) (by omega)
  · decide

theorem isWordChar_of_isAlpha {c : Char} (h : c.isAlpha = true) : isWordChar c = true := by
  simp [isWordChar, Char.isAlphanum, h]

theorem isWordChar_of_isDigit {c : Char} (h : c.isDigit = true) : isWordChar c = true := by
  simp [isWordChar, Char.isAlphanum, h]

/-- A text that keeps apart starts with no character of a kind that has no
blanks. -/
theorem Apart.head_eq_false {rest : List Char} (h : Apart rest) {p : Char → Bool}
    (hp : ∀ c, p c = true → Text.isBlank c = false) : rest.head?.any p = false := by
  cases rest with
  | nil => rfl
  | cons c cs =>
    have hc : Text.isBlank c = true := h c rfl
    cases hpc : p c with
    | false => simpa using hpc
    | true =>
      rw [hp c hpc] at hc
      cases hc

theorem ne_of_holds {p : Char → Bool} {c d : Char} (hc : p c = true) (hd : p d = false) : c ≠ d := by
  rintro rfl
  rw [hc] at hd
  cases hd

/-! ### Words -/

/-- A letter, and then letters, digits and underscores. -/
def IsWord (w : List Char) : Prop :=
  w.head?.any Char.isAlpha = true ∧ w.all isWordChar = true

instance (w : List Char) : Decidable (IsWord w) :=
  inferInstanceAs (Decidable (_ ∧ _))

theorem isWord_of_reserved {k : Kind} (hk : k ∈ Kind.reserved) :
    IsWord k.spelling.toList ∧ IsWord (k.spelling.toList.map Char.toUpper) :=
  (by decide : ∀ k ∈ Kind.reserved,
    IsWord k.spelling.toList ∧ IsWord (k.spelling.toList.map Char.toUpper)) k hk

theorem toUpper_toLower (c : Char) : c.toLower.toUpper = c.toUpper := by
  have hc : c.toNat = c.val.toNat := rfl
  by_cases h : c.val ≥ 'A'.val ∧ c.val ≤ 'Z'.val
  · have hA : 65 ≤ c.val.toNat := h.1
    have hZ : c.val.toNat ≤ 90 := h.2
    have hlower : c.toLower.val.toNat = c.val.toNat + 32 := by
      have hval : c.toLower = ⟨c.val + 32, _⟩ := dif_pos h
      rw [hval, UInt32.toNat_add]
      simp only [UInt32.reduceToNat]
      omega
    have ha : 'a'.val ≤ c.toLower.val ∧ c.toLower.val ≤ 'z'.val := by
      constructor
      · show 97 ≤ c.toLower.val.toNat
        omega
      · show c.toLower.val.toNat ≤ 122
        omega
    have hno : ¬ ('a'.val ≤ c.val ∧ c.val ≤ 'z'.val) := by
      intro hcase
      have : 97 ≤ c.val.toNat := hcase.1
      omega
    have hboth : c.toLower.toUpper = ⟨c.toLower.val + ('A'.val - 'a'.val), _⟩ := dif_pos ha
    have hupper : c.toUpper = c := dif_neg hno
    rw [hboth, hupper]
    apply Char.ext
    apply UInt32.toNat_inj.mp
    show (c.toLower.val + ('A'.val - 'a'.val)).toNat = _
    rw [UInt32.toNat_add, hlower, show ('A'.val - 'a'.val).toNat = 4294967264 from rfl]
    omega
  · have hsame : c.toLower = c := dif_neg h
    rw [hsame]

/-- A reserved word is spelled in lower case throughout or in upper case
throughout. -/
theorem Kind.ofWord_eq_some {w : List Char} {k : Kind} :
    ofWord w = some k ↔
      k ∈ reserved ∧ (w = k.spelling.toList ∨ w = k.spelling.toList.map Char.toUpper) := by
  constructor
  · intro h
    refine ⟨ofWord_mem h, ?_⟩
    unfold ofWord at h
    simp only at h
    split at h
    · rename_i hcase
      have hlower : k.spelling.toList = w.map Char.toLower := by simpa using List.find?_some h
      rcases hcase with hcase | hcase
      · exact .inl (by rw [hlower, ← hcase])
      · have hupper : w.map (Char.toUpper ∘ Char.toLower) = w.map Char.toUpper :=
          List.map_congr_left fun c _ => toUpper_toLower c
        exact .inr (by rw [hlower, List.map_map, hupper, ← hcase])
    · cases h
  · rintro ⟨hk, rfl | rfl⟩
    · exact (by decide : ∀ k ∈ reserved, ofWord k.spelling.toList = some k) k hk
    · exact (by decide : ∀ k ∈ reserved, ofWord (k.spelling.toList.map Char.toUpper) = some k) k hk

/-- A word is a name if it is no reserved word in lower case throughout or in
upper case throughout. -/
theorem Kind.ofWord_eq_none {w : List Char} :
    ofWord w = none ↔
      ∀ k ∈ reserved, w ≠ k.spelling.toList ∧ w ≠ k.spelling.toList.map Char.toUpper := by
  simp only [Option.eq_none_iff_forall_ne_some, ne_eq, ofWord_eq_some, not_and, not_or]

theorem readWord_append {w rest : List Char} (hw : ∀ c ∈ w, isWordChar c = true)
    (h : rest.head?.any isWordChar = false) :
    readWord (w ++ rest) = .token ((Kind.ofWord w).getD .ident) (String.ofList w) w rest := by
  rw [readWord, takeWhile_append_of_head hw h, List.drop_left]

/-! ### Numbers -/

/-- The characters that numbers are made of, and those that may not follow one. -/
def isNumberChar (c : Char) : Bool :=
  isWordChar c || c = '.' || c = '+' || c = '-'

theorem isNumberChar_of_isDigit {c : Char} (h : c.isDigit = true) : isNumberChar c = true := by
  simp [isNumberChar, isWordChar_of_isDigit h]

theorem isBlank_of_isNumberChar {c : Char} (h : isNumberChar c = true) : Text.isBlank c = false := by
  simp only [isNumberChar, Bool.or_eq_true, decide_eq_true_eq] at h
  rcases h with ((h | rfl) | rfl) | rfl
  · exact isBlank_of_isWordChar h
  all_goals decide

theorem IsNumber.isNumberChar_of_mem {m : List Char} (h : IsNumber m) : ∀ c ∈ m, isNumberChar c = true := by
  have hdigits : ∀ ds : List Char, (∀ c ∈ ds, c.isDigit = true) → ∀ c ∈ ds, isNumberChar c = true :=
    fun ds hds c hc => isNumberChar_of_isDigit (hds c hc)
  have hexponent : ∀ x : List Char, x = [] ∨ IsExponent x → ∀ c ∈ x, isNumberChar c = true := by
    rintro x (rfl | ⟨he, hsign, hds⟩)
    · exact nofun
    · refine List.forall_mem_cons.mpr ⟨?_, List.forall_mem_append.mpr
        ⟨?_, hdigits _ (isDigits_iff.mp hds).2⟩⟩
      · rcases he with rfl | rfl <;> decide
      · rcases hsign with rfl | rfl | rfl
        · exact nofun
        · exact List.forall_mem_singleton.mpr (by decide)
        · exact List.forall_mem_singleton.mpr (by decide)
  rcases h with hds | hfloat
  · exact hdigits m (isDigits_iff.mp hds).2
  · cases hfloat with
    | point hds hfs hx =>
      exact List.forall_mem_append.mpr ⟨hdigits _ (isDigits_iff.mp hds).2, List.forall_mem_cons.mpr
        ⟨by decide, List.forall_mem_append.mpr ⟨hdigits _ hfs, hexponent _ hx⟩⟩⟩
    | fraction hfs hx =>
      exact List.forall_mem_cons.mpr ⟨by decide, List.forall_mem_append.mpr
        ⟨hdigits _ (isDigits_iff.mp hfs).2, hexponent _ hx⟩⟩
    | exponent hds hx =>
      exact List.forall_mem_append.mpr ⟨hdigits _ (isDigits_iff.mp hds).2, hexponent _ (.inr hx)⟩

theorem IsNumber.isBlank_eq_false {m : List Char} (h : IsNumber m) :
    ∀ c ∈ m, Text.isBlank c = false :=
  fun c hc => isBlank_of_isNumberChar (h.isNumberChar_of_mem c hc)

/-- A word is the longest one of a kind if something follows that no word of the
kind holds. -/
theorem isLongest_append {P : List Char → Prop} {p : Char → Bool}
    (hP : ∀ n, P n → ∀ c ∈ n, p c = true) {m rest : List Char} (hm : P m)
    (h : rest.head?.any p = false) : IsLongest P m (m ++ rest) := by
  refine ⟨List.prefix_append .., hm, fun n hn hPn => Nat.le_of_not_lt fun hlt => ?_⟩
  obtain ⟨tail, rfl⟩ := List.prefix_of_prefix_length_le (List.prefix_append m rest) hn (by omega)
  have htail : tail <+: rest := (List.prefix_append_right_inj m).mp hn
  cases tail with
  | nil => simp at hlt
  | cons c tail =>
    obtain ⟨rest, rfl⟩ := htail
    have hc : p c = true := hP _ hPn c (by simp)
    have hno : p c = false := h
    rw [hc] at hno
    cases hno

theorem readInt_digits {ds : List Char} (hds : Decimal.isDigits ds = true)
    (h : Decimal.value ds < 2 ^ 63) : Decimal.readInt ds = some (Decimal.value ds : Int) := by
  rw [readInt_eq hds, if_pos h]

/-- A number is read to its end, if it is a float or fits a word. -/
theorem readNumeral_append {m rest : List Char} (hm : IsNumber m)
    (hvalue : Decimal.isDigits m = true → Decimal.value m < 2 ^ 63)
    (h : rest.head?.any isNumberChar = false) :
    readNumeral (m ++ rest) =
      .token (if Decimal.isDigits m then .intLiteral else .floatLiteral) (String.ofList m) m rest := by
  have hnumber : ∀ c, spoilsNumber c = true → isNumberChar c = true := by
    intro c hc
    simp only [spoilsNumber, Bool.or_eq_true, decide_eq_true_eq] at hc
    rcases hc with (hc | rfl) | rfl
    · simp [isNumberChar, isWordChar_of_isAlpha hc]
    all_goals decide
  have hspoils : rest.head?.any spoilsNumber = false := by
    rw [Option.any_eq_false] at h ⊢
    exact fun c hc => Bool.eq_false_iff.mpr fun hspoils =>
      Bool.eq_false_iff.mp (h c hc) (hnumber c hspoils)
  have hlongest : IsLongest IsNumber m (m ++ rest) :=
    isLongest_append (fun n hn => hn.isNumberChar_of_mem) hm h
  rw [readNumeral_eq hlongest, hspoils]
  cases hds : Decimal.isDigits m with
  | true =>
    rw [if_neg (by decide), if_neg (by decide), if_pos (hvalue hds)]
    rfl
  | false => rfl

/-! ### Strings -/

/-- A character as it is written in a string. -/
def escaped (c : Char) : List Char :=
  if c = '\n' then ['\\', 'n']
  else if c = '\t' then ['\\', 't']
  else if c = '\\' then ['\\', '\\']
  else if c = '"' then ['\\', '"']
  else [c]

/-- A string as it is written: its text with escapes, between quotes. -/
def literal (text : String) : List Char :=
  '"' :: (text.toList.flatMap escaped ++ ['"'])

theorem stringBody_cons {c : Char} (hquote : c ≠ '"') (hnewline : c ≠ '\n') (hbackslash : c ≠ '\\')
    (cs : List Char) : stringBody (c :: cs) = (stringBody cs).prepend [c] [c] := by
  rw [stringBody.eq_7 c cs (fun h => hquote h) (fun h => hnewline h) (fun h _ => hbackslash h)
    (fun _ h _ => hbackslash h) (fun _ _ h _ => hbackslash h)]

/-- Escapes are read back, up to the closing quote. -/
theorem stringBody_escaped (text rest : List Char) :
    stringBody (text.flatMap escaped ++ '"' :: rest) = .closed text (text.flatMap escaped) rest := by
  induction text with
  | nil => simp [stringBody]
  | cons c text ih =>
    rw [List.flatMap_cons, List.append_assoc]
    by_cases hnewline : c = '\n'
    · subst hnewline
      simp [escaped, stringBody, unescape, ih, StringBody.prepend]
    by_cases htab : c = '\t'
    · subst htab
      simp [escaped, stringBody, unescape, ih, StringBody.prepend]
    by_cases hbackslash : c = '\\'
    · subst hbackslash
      simp [escaped, stringBody, unescape, ih, StringBody.prepend]
    by_cases hquote : c = '"'
    · subst hquote
      simp [escaped, stringBody, unescape, ih, StringBody.prepend]
    have hc : escaped c = [c] := by
      rw [escaped, if_neg hnewline, if_neg htab, if_neg hbackslash, if_neg hquote]
    rw [hc, List.cons_append, List.nil_append, stringBody_cons hquote hnewline hbackslash, ih]
    rfl

theorem readString_escaped (text : String) (rest : List Char) :
    readString (text.toList.flatMap escaped ++ '"' :: rest) =
      .token .stringLiteral text (literal text) rest := by
  rw [readString, stringBody_escaped]
  simp [literal]

/-! ### Symbols -/

theorem isBlank_of_mem_spelling {k : Kind} (hk : k ∈ Kind.symbols) :
    ∀ c ∈ k.spelling.toList, Text.isBlank c = false := by
  have hall : ∀ k ∈ Kind.symbols, (k.spelling.toList.all fun c => !Text.isBlank c) = true := by decide
  intro c hc
  simpa using List.all_eq_true.mp (hall k hk) c hc

/-- Where a symbol stands alone, it is the longest one. -/
theorem find?_symbols :
    ∀ k ∈ Kind.symbols,
      (Kind.symbols.find? fun l => l.spelling.toList.isPrefixOf k.spelling.toList) = some k := by
  decide

theorem find?_congr {α : Type} {p q : α → Bool} :
    ∀ {as : List α}, (∀ a ∈ as, p a = q a) → as.find? p = as.find? q
  | [], _ => rfl
  | a :: as, h => by
    rw [List.find?_cons, List.find?_cons, h a (List.mem_cons_self ..),
      find?_congr fun b hb => h b (List.mem_cons_of_mem _ hb)]

/-- A character behind a token of this kind goes on with it, or makes a comment
of it. -/
def Kind.continuedBy (k : Kind) (c : Char) : Bool :=
  match k with
  | intLiteral | floatLiteral => isNumberChar c
  | plus | minus | lt | gt | assign => c = '='
  | slash => c = '/' || c = '*'
  | stringLiteral | star | le | ge | eqEq | notEq | plusAssign | minusAssign | lParen | rParen
  | lBracket | rBracket | comma | semicolon | colon | eof => false
  | _ => isWordChar c

/-- A token of this kind ends before the text. -/
def Ends (k : Kind) (rest : List Char) : Prop :=
  rest.head?.any k.continuedBy = false

theorem Kind.ofWord_getD_mem (w : List Char) : (ofWord w).getD .ident ∈ .ident :: reserved := by
  cases hk : ofWord w with
  | none => exact .head _
  | some k => exact .tail _ (ofWord_mem hk)

/-- Names and reserved words go on with the characters of words. -/
theorem Kind.continuedBy_ofWord (w : List Char) :
    ((ofWord w).getD .ident).continuedBy = isWordChar := by
  have hall : ∀ k ∈ Kind.ident :: reserved, k.continuedBy = isWordChar := by
    intro k hk
    cases k <;> first | rfl | exact absurd hk (by decide)
  exact hall _ (ofWord_getD_mem w)

theorem Kind.isBlank_of_continuedBy {k : Kind} {c : Char} (h : k.continuedBy c = true) :
    Text.isBlank c = false := by
  cases k with
  | intLiteral | floatLiteral => exact isBlank_of_isNumberChar h
  | plus | minus | lt | gt | assign =>
    obtain rfl : c = '=' := of_decide_eq_true h
    decide
  | slash =>
    have hc : c = '/' ∨ c = '*' := by simpa [Kind.continuedBy] using h
    rcases hc with rfl | rfl <;> decide
  | stringLiteral | star | le | ge | eqEq | notEq | plusAssign | minusAssign | lParen | rParen
  | lBracket | rBracket | comma | semicolon | colon | eof => cases h
  | _ => exact isBlank_of_isWordChar h

theorem Apart.ends {rest : List Char} (h : Apart rest) (k : Kind) : Ends k rest :=
  h.head_eq_false fun _ => Kind.isBlank_of_continuedBy

/-- Where a symbol goes on to a longer one, it does so with a character that
continues it. -/
theorem continuedBy_of_symbols :
    ∀ k ∈ Kind.symbols, ∀ l ∈ Kind.symbols, ∀ c ∈ l.spelling.toList,
      (k.spelling.toList ++ [c]).isPrefixOf l.spelling.toList = true → k.continuedBy c = true := by
  -- tested on the characters of the spellings only, not on all that there are
  have hall : (Kind.symbols.all fun k => Kind.symbols.all fun l => l.spelling.toList.all fun c =>
      !(k.spelling.toList ++ [c]).isPrefixOf l.spelling.toList || k.continuedBy c) = true := by
    decide
  intro k hk l hl c hc hstarts
  have hk := List.all_eq_true.mp hall k hk
  have hcontinued := List.all_eq_true.mp (List.all_eq_true.mp hk l hl) c hc
  rw [hstarts] at hcontinued
  exact hcontinued

/-- A symbol at the front of a text starts with another symbol only if that one
ends at the same place or goes on. -/
theorem isPrefixOf_append_symbol {k l : Kind} (hk : k ∈ Kind.symbols) (hl : l ∈ Kind.symbols)
    {rest : List Char} (h : Ends k rest) :
    l.spelling.toList.isPrefixOf (k.spelling.toList ++ rest) =
      l.spelling.toList.isPrefixOf k.spelling.toList := by
  rw [Bool.eq_iff_iff, List.isPrefixOf_iff_prefix, List.isPrefixOf_iff_prefix]
  refine ⟨fun hstarts => ?_, fun hstarts => hstarts.trans (List.prefix_append ..)⟩
  rcases List.prefix_or_prefix_of_prefix hstarts (List.prefix_append ..) with hshort | ⟨tail, hlong⟩
  · exact hshort
  · cases tail with
    | nil => exact ⟨[], by rw [← hlong]; simp⟩
    | cons c tail =>
      rw [← hlong, List.prefix_append_right_inj] at hstarts
      obtain ⟨rest, rfl⟩ := hstarts
      have hcontinued := continuedBy_of_symbols k hk l hl c (by simp [← hlong]) <|
        List.isPrefixOf_iff_prefix.mpr ⟨tail, by rw [← hlong]; simp⟩
      have hno : k.continuedBy c = false := h
      rw [hcontinued] at hno
      cases hno

/-- A symbol is read to its end. -/
theorem readSymbol_append {k : Kind} (hk : k ∈ Kind.symbols) {c : Char} {cs rest : List Char}
    (hc : k.spelling.toList = c :: cs) (h : Ends k rest) :
    readSymbol c (cs ++ rest) = .token k k.spelling k.spelling.toList rest := by
  have hfind : (Kind.symbols.find? fun l => l.spelling.toList.isPrefixOf (c :: (cs ++ rest))) =
      some k := by
    rw [← find?_symbols k hk]
    refine find?_congr fun l hl => ?_
    rw [← List.cons_append, ← hc, isPrefixOf_append_symbol hk hl h]
  rw [readSymbol, hfind]
  simp only [← List.cons_append, ← hc, List.drop_left]

/-! ### Lexemes -/

/-- The lexeme is a spelling of a token of this kind with this text. -/
inductive IsSpelling : Kind → String → List Char → Prop where
  | word {w : List Char} : IsWord w →
      IsSpelling ((Kind.ofWord w).getD .ident) (String.ofList w) w
  | symbol {k : Kind} : k ∈ Kind.symbols → IsSpelling k k.spelling k.spelling.toList
  | int {ds : List Char} : Decimal.isDigits ds = true → Decimal.value ds < 2 ^ 63 →
      IsSpelling .intLiteral (String.ofList ds) ds
  | float {m : List Char} : IsFloat m → IsSpelling .floatLiteral (String.ofList m) m
  | string {text : String} : IsSpelling .stringLiteral text (literal text)

theorem gapPiece_cons {c : Char} (hslash : c ≠ '/') (hc : Text.isBlank c = false) (cs : List Char) :
    gapPiece (c :: cs) = [] := by
  rw [gapPiece.eq_3 c cs (fun _ h _ => hslash h) (fun _ h _ => hslash h), hc]
  rfl

theorem gapPiece_slash {rest : List Char} (h : Ends .slash rest) : gapPiece ('/' :: rest) = [] := by
  rw [gapPiece.eq_3 '/' rest (by rintro cs - rfl; cases h) (by rintro cs - rfl; cases h)]
  rfl

theorem readLexeme_cons {c : Char} {cs : List Char} (hcs : c = '/' → ∀ ds, cs ≠ '*' :: ds) :
    readLexeme (c :: cs) =
      if c = '"' then readString cs
      else if startsNumeral c cs then readNumeral (c :: cs)
      else if c.isAlpha then readWord (c :: cs)
      else readSymbol c cs :=
  readLexeme.eq_3 c cs fun ds h => hcs h ds

/-- A symbol starts with a character that starts no other token, and no comment
if it stands alone. -/
theorem head_symbol {k : Kind} (hk : k ∈ Kind.symbols) {c : Char} {cs : List Char}
    (hc : k.spelling.toList = c :: cs) :
    c ≠ '"' ∧ c.isDigit = false ∧ c ≠ '.' ∧ c.isAlpha = false ∧ (c = '/' → cs = []) := by
  have hall : ∀ k ∈ Kind.symbols, (k.spelling.toList.head?.all fun c =>
      c ≠ '"' && !c.isDigit && c ≠ '.' && !c.isAlpha &&
        (c ≠ '/' || k.spelling.toList.length = 1)) = true := by
    decide
  have hhead := hall k hk
  rw [hc] at hhead
  simp only [List.head?_cons, Option.all_some, Bool.and_eq_true, decide_eq_true_eq, Bool.not_eq_true',
    Bool.or_eq_true, List.length_cons] at hhead
  obtain ⟨⟨⟨⟨hquote, hdigit⟩, hdot⟩, halpha⟩, hslash⟩ := hhead
  refine ⟨hquote, hdigit, hdot, halpha, fun hc => ?_⟩
  have hlen : cs.length + 1 = 1 := hslash.resolve_left fun hne => hne hc
  exact List.length_eq_zero_iff.mp (by omega)

theorem symbol_eq_slash {k : Kind} (hk : k ∈ Kind.symbols) (hc : k.spelling.toList = ['/']) :
    k = .slash :=
  (by decide : ∀ k ∈ Kind.symbols, k.spelling.toList = ['/'] → k = .slash) k hk hc

theorem isDigit_of_isAlpha {c : Char} (h : c.isAlpha = true) : c.isDigit = false := by
  rw [isAlpha_iff] at h
  simp only [Char.isDigit, Bool.and_eq_false_iff, decide_eq_false_iff_not, UInt32.le_iff_toNat_le,
    ge_iff_le]
  have hc : c.toNat = c.val.toNat := rfl
  have h9 : '9'.val.toNat = 57 := rfl
  omega

/-- The lexeme is taken whole as this token, and no gap is in front of it. -/
def ReadAs (kind : Kind) (text : String) (lexeme rest : List Char) : Prop :=
  gapPiece (lexeme ++ rest) = [] ∧ readLexeme (lexeme ++ rest) = .token kind text lexeme rest

theorem readAs_word {w rest : List Char} (hw : IsWord w)
    (h : rest.head?.any isWordChar = false) :
    ReadAs ((Kind.ofWord w).getD .ident) (String.ofList w) w rest := by
  obtain ⟨hhead, hall⟩ := hw
  have hall : ∀ c ∈ w, isWordChar c = true := List.all_eq_true.mp hall
  obtain ⟨c, cs, rfl⟩ : ∃ c cs, w = c :: cs := by
    cases w with
    | nil => cases hhead
    | cons c cs => exact ⟨c, cs, rfl⟩
  have hc : c.isAlpha = true := hhead
  have hslash : c ≠ '/' := ne_of_holds hc (by decide)
  have hquote : c ≠ '"' := ne_of_holds hc (by decide)
  have hdot : c ≠ '.' := ne_of_holds hc (by decide)
  have hnumeral : startsNumeral c (cs ++ rest) = false := by
    simp [startsNumeral, isDigit_of_isAlpha hc, hdot]
  have hread := readWord_append hall h
  rw [ReadAs]
  rw [List.cons_append] at hread ⊢
  refine ⟨gapPiece_cons hslash (isBlank_of_isWordChar (isWordChar_of_isAlpha hc)) _, ?_⟩
  rw [readLexeme_cons (fun hc => absurd hc hslash), if_neg hquote, hnumeral, if_neg (by simp),
    if_pos hc, hread]

theorem readAs_symbol {k : Kind} {rest : List Char} (hk : k ∈ Kind.symbols) (h : Ends k rest) :
    ReadAs k k.spelling k.spelling.toList rest := by
  obtain ⟨c, cs, hc⟩ := List.exists_cons_of_ne_nil (spelling_ne_nil_of_mem_symbols k hk)
  have hblank : Text.isBlank c = false := isBlank_of_mem_spelling hk c (by simp [hc])
  obtain ⟨hquote, hdigit, hdot, halpha, hslash⟩ := head_symbol hk hc
  have halone : c = '/' → cs ++ rest = rest ∧ Ends .slash rest := by
    intro hcslash
    obtain rfl := hslash hcslash
    obtain rfl := symbol_eq_slash hk (hcslash ▸ hc)
    exact ⟨rfl, h⟩
  have hgap : gapPiece (c :: (cs ++ rest)) = [] := by
    by_cases hcslash : c = '/'
    · rw [(halone hcslash).1, hcslash, gapPiece_slash (halone hcslash).2]
    · exact gapPiece_cons hcslash hblank _
  have hnumeral : startsNumeral c (cs ++ rest) = false := by
    simp [startsNumeral, hdigit, hdot]
  have hcomment : c = '/' → ∀ ds, cs ++ rest ≠ '*' :: ds := by
    intro hcslash
    rw [(halone hcslash).1]
    rintro ds rfl
    cases (halone hcslash).2
  have hread := readSymbol_append hk hc h
  rw [ReadAs]
  rw [hc] at hread ⊢
  refine ⟨hgap, ?_⟩
  rw [List.cons_append, readLexeme_cons hcomment, if_neg hquote, hnumeral, if_neg (by simp), halpha,
    if_neg (by simp), hread]

theorem startsNumeral_head {c : Char} {cs : List Char} (h : startsNumeral c cs = true) :
    Text.isBlank c = false ∧ c ≠ '/' ∧ c ≠ '"' := by
  simp only [startsNumeral, Bool.or_eq_true, Bool.and_eq_true, decide_eq_true_eq] at h
  rcases h with hc | ⟨rfl, -⟩
  · exact ⟨isBlank_of_isWordChar (isWordChar_of_isDigit hc), ne_of_holds hc (by decide),
      ne_of_holds hc (by decide)⟩
  · decide

theorem readAs_number {m rest : List Char} (hm : IsNumber m)
    (hvalue : Decimal.isDigits m = true → Decimal.value m < 2 ^ 63)
    (h : rest.head?.any isNumberChar = false) :
    ReadAs (if Decimal.isDigits m then .intLiteral else .floatLiteral) (String.ofList m) m rest := by
  have hread := readNumeral_append hm hvalue h
  obtain ⟨c, cs, hcs, hnumeral⟩ := hm.exists_cons (List.prefix_append m rest)
  obtain ⟨hblank, hslash, hquote⟩ := startsNumeral_head hnumeral
  rw [ReadAs]
  rw [hcs] at hread ⊢
  refine ⟨gapPiece_cons hslash hblank _, ?_⟩
  rw [readLexeme_cons (fun hc => absurd hc hslash), if_neg hquote, hnumeral, if_pos rfl, hread]

theorem readAs_string (text : String) (rest : List Char) :
    ReadAs .stringLiteral text (literal text) rest := by
  have hread := readString_escaped text rest
  have hsplit : literal text ++ rest = '"' :: (text.toList.flatMap escaped ++ '"' :: rest) := by
    simp [literal]
  rw [ReadAs, hsplit]
  refine ⟨gapPiece_cons (by decide) (by decide) _, ?_⟩
  rw [readLexeme_cons (fun hquote => absurd hquote (by decide)), if_pos rfl, hread]

/-- **A spelling is read back before any text that does not go on with it**, and no
gap is in front of it. -/
theorem IsSpelling.readAs {kind : Kind} {text : String} {lexeme rest : List Char}
    (hs : IsSpelling kind text lexeme) (h : Ends kind rest) : ReadAs kind text lexeme rest := by
  cases hs with
  | word hw =>
    rw [Ends, Kind.continuedBy_ofWord] at h
    exact readAs_word hw h
  | symbol hk => exact readAs_symbol hk h
  | int hds hvalue =>
    have := readAs_number (.inl hds) (fun _ => hvalue) h
    rwa [hds] at this
  | float hm =>
    have hno := hm.isDigits_eq_false
    have := readAs_number (.inr hm) (fun hds => by rw [hno] at hds; cases hds) h
    rwa [hno] at this
  | string => exact readAs_string text rest

theorem IsSpelling.kind_ne_eof {kind : Kind} {text : String} {lexeme : List Char}
    (hs : IsSpelling kind text lexeme) : kind ≠ .eof := by
  have hread := (hs.readAs (apart_nil.ends kind)).2
  exact (readLexeme_spec hread).2.1

end Token
end SyntaxGraph
