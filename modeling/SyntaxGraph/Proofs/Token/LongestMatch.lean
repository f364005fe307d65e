/-
# Longest match

The lexical grammar: which runs of characters are lexemes, and of which kind.
Behind a gap a text is read by longest match. Numbers are malformed together
with the letters, digits, underscores and points that follow them directly, and
strings stop at the first escape that is none or at the end of the line; apart
from these the longest lexeme is the token.

Key definitions: `Token.IsLexeme`, `Token.Plain`, `Token.Reads`.
Key theorems: `Token.Reads.readLexeme_eq`, `Token.exists_reads`,
`Cursor.next_eq_longest_match`.
-/
import SyntaxGraph.Proofs.Token.Spelling

namespace SyntaxGraph
namespace Token

/-! ### The lexical grammar -/

/-- The run of characters is a lexeme of this kind. -/
inductive IsLexeme : Kind → List Char → Prop where
  /-- A letter, and then letters, digits and underscores, but no reserved word. -/
  | name {w : List Char} : IsWord w →
      (∀ k ∈ Kind.reserved, w ≠ k.spelling.toList ∧ w ≠ k.spelling.toList.map Char.toUpper) →
      IsLexeme .ident w
  /-- A reserved word in lower case throughout. -/
  | lower {k : Kind} : k ∈ Kind.reserved → IsLexeme k k.spelling.toList
  /-- A reserved word in upper case throughout. -/
  | upper {k : Kind} : k ∈ Kind.reserved → IsLexeme k (k.spelling.toList.map Char.toUpper)
  | symbol {k : Kind} : k ∈ Kind.symbols → IsLexeme k k.spelling.toList
  | int {m : List Char} : Decimal.isDigits m = true → IsLexeme .intLiteral m
  | float {m : List Char} : IsFloat m → IsLexeme .floatLiteral m
  /-- Quotes around characters of one line, where backslashes make escapes. -/
  | string {raw text : List Char} : '\n' ∉ raw → decoded raw = some text →
      IsLexeme .stringLiteral ('"' :: (raw ++ ['"']))

/-- No number, no string and no block comment starts the text. -/
structure Plain (cs : List Char) : Prop where
  number : ∀ m, m <+: cs → ¬ IsNumber m
  string : ¬ ['"'] <+: cs
  comment : ¬ ['/', '*'] <+: cs

/-- How the text behind a gap is read. -/
inductive Reads : List Char → Reading → Prop where
  | nothing : Reads [] .nothing
  /-- A comment that a gap does not take is not closed. -/
  | comment {cs : List Char} : Reads ('/' :: '*' :: cs) (.fault [] .unterminatedComment)
  /-- A number that a letter, an underscore or a point follows. -/
  | malformed {m rest : List Char} : IsLongest IsNumber m (m ++ rest) →
      rest.head?.any spoilsNumber = true →
      Reads (m ++ rest) (.fault [] (.invalidNumber (String.ofList
        (m ++ rest.takeWhile fun c => isWordChar c || c = '.'))))
  /-- An integer that does not fit a word. -/
  | tooLarge {m rest : List Char} : IsLongest IsNumber m (m ++ rest) →
      rest.head?.any spoilsNumber = false → Decimal.isDigits m = true → 2 ^ 63 ≤ Decimal.value m →
      Reads (m ++ rest) (.fault [] (.invalidNumber (String.ofList m)))
  | int {m rest : List Char} : IsLongest IsNumber m (m ++ rest) →
      rest.head?.any spoilsNumber = false → Decimal.isDigits m = true → Decimal.value m < 2 ^ 63 →
      Reads (m ++ rest) (.token .intLiteral (String.ofList m) m rest)
  | float {m rest : List Char} : IsLongest IsNumber m (m ++ rest) →
      rest.head?.any spoilsNumber = false → IsFloat m →
      Reads (m ++ rest) (.token .floatLiteral (String.ofList m) m rest)
  | string {raw text rest : List Char} : '\n' ∉ raw → decoded raw = some text →
      Reads ('"' :: (raw ++ '"' :: rest))
        (.token .stringLiteral (String.ofList text) ('"' :: raw ++ ['"']) rest)
  /-- The first backslash that makes no escape, before the string or the line ends. -/
  | badEscape {raw text : List Char} {c : Char} {rest : List Char} : '\n' ∉ raw →
      decoded raw = some text → c ≠ '\n' → unescape c = none →
      Reads ('"' :: (raw ++ '\\' :: c :: rest)) (.fault ('"' :: raw) (.invalidEscape c))
  /-- The line ends before the string, perhaps behind a backslash. -/
  | unterminated {raw text cut rest : List Char} : '\n' ∉ raw → decoded raw = some text →
      cut = [] ∨ cut = ['\\'] → rest = [] ∨ rest.head? = some '\n' →
      Reads ('"' :: (raw ++ (cut ++ rest)))
        (.fault [] (.unterminatedString (String.ofList (raw ++ cut))))
  /-- A word or a symbol. -/
  | lexeme {kind : Kind} {lexeme rest : List Char} : Plain (lexeme ++ rest) → IsLexeme kind lexeme →
      IsLongest (fun l => ∃ k, IsLexeme k l) lexeme (lexeme ++ rest) →
      Reads (lexeme ++ rest) (.token kind (String.ofList lexeme) lexeme rest)
  | unexpected {c : Char} {cs : List Char} : Plain (c :: cs) →
      (∀ k l, l <+: c :: cs → ¬ IsLexeme k l) →
      Reads (c :: cs) (.fault [] (.unexpectedCharacter c))

/-! ### Strings -/

theorem StringBody.prepend_nil (b : StringBody) : b.prepend [] [] = b := by
  cases b <;> rfl

theorem StringBody.prepend_prepend (b : StringBody) (text raw text' raw' : List Char) :
    (b.prepend text raw).prepend text' raw' = b.prepend (text' ++ text) (raw' ++ raw) := by
  cases b <;> simp [prepend]

/-- Characters without a fault are read one by one. -/
theorem stringBody_append {raw text : List Char} (hline : '\n' ∉ raw) (h : decoded raw = some text)
    (rest : List Char) : stringBody (raw ++ rest) = (stringBody rest).prepend text raw := by
  fun_induction decoded raw generalizing text with
  | case1 =>
    obtain rfl : [] = text := by simpa using h
    exact (StringBody.prepend_nil _).symm
  | case2 => cases h
  | case3 => cases h
  | case4 c cs ih =>
    obtain ⟨d, hd, h⟩ := Option.bind_eq_some_iff.mp h
    obtain ⟨ds, hds, rfl⟩ := Option.map_eq_some_iff.mp h
    have hc : c ≠ '\n' := by rintro rfl; simp at hline
    have hcs : '\n' ∉ cs := fun hcs => hline (by simp [hcs])
    have hrest := ih hcs hds
    simp only [List.cons_append, stringBody, hd, hrest, StringBody.prepend_prepend]
    rfl
  | case5 c cs hquote hlast hescape ih =>
    obtain ⟨ds, hds, rfl⟩ := Option.map_eq_some_iff.mp h
    have hc : c ≠ '\n' := by rintro rfl; simp at hline
    have hcs : '\n' ∉ cs := fun hcs => hline (by simp [hcs])
    have hbackslash : c ≠ '\\' := by
      intro hc
      cases cs with
      | nil => exact hlast hc rfl
      | cons d cs => exact hescape d cs hc rfl
    rw [List.cons_append, stringBody_cons (fun hc => hquote hc) hc hbackslash, ih hcs hds,
      StringBody.prepend_prepend]
    rfl

/-- What the inside of a string stops at: the quote that closes it, the end of
the line, or a backslash that makes no escape. -/
inductive Stops : List Char → Prop where
  | quote {rest : List Char} : Stops ('"' :: rest)
  | line {cut rest : List Char} : cut = [] ∨ cut = ['\\'] → rest = [] ∨ rest.head? = some '\n' →
      Stops (cut ++ rest)
  | escape {c : Char} {rest : List Char} : c ≠ '\n' → unescape c = none → Stops ('\\' :: c :: rest)

/-- The inside of a string goes on without a fault until it stops. -/
theorem exists_stop (cs : List Char) :
    ∃ raw text rest, cs = raw ++ rest ∧ '\n' ∉ raw ∧ decoded raw = some text ∧ Stops rest := by
  fun_induction stringBody cs with
  | case1 => exact ⟨[], [], [], rfl, List.not_mem_nil, rfl, .line (.inl rfl) (.inl rfl)⟩
  | case2 cs => exact ⟨[], [], _, rfl, List.not_mem_nil, rfl, .quote⟩
  | case3 cs => exact ⟨[], [], _, rfl, List.not_mem_nil, rfl, .line (.inl rfl) (.inr rfl)⟩
  | case4 => exact ⟨[], [], _, rfl, List.not_mem_nil, rfl, .line (.inr rfl) (.inl rfl)⟩
  | case5 cs => exact ⟨[], [], _, rfl, List.not_mem_nil, rfl, .line (.inr rfl) (.inr rfl)⟩
  | case6 c cs hc d hd ih =>
    obtain ⟨raw, text, rest, rfl, hline, htext, hstop⟩ := ih
    exact ⟨'\\' :: c :: raw, d :: text, rest, rfl, by simp [hline, Ne.symm hc],
      by simp [decoded, hd, htext], hstop⟩
  | case7 c cs hc hd => exact ⟨[], [], _, rfl, List.not_mem_nil, rfl, .escape hc hd⟩
  | case8 c cs hquote hnewline hlast hcut hescape ih =>
    have hbackslash : c ≠ '\\' := by
      intro hc
      cases cs with
      | nil => exact hlast hc rfl
      | cons d cs => exact hescape d cs hc rfl
    obtain ⟨raw, text, rest, rfl, hline, htext, hstop⟩ := ih
    have hc : '\n' ≠ c := fun h => hnewline h.symm
    refine ⟨c :: raw, c :: text, rest, rfl, by simp [hline, hc], ?_, hstop⟩
    rw [decoded.eq_5 c raw (fun h => hquote h) (fun h _ => hbackslash h)
      (fun _ _ h _ => hbackslash h), htext]
    rfl

/-- Behind an opening quote, a text is read as a string or as its fault. -/
theorem exists_reads_string (cs : List Char) : ∃ x, Reads ('"' :: cs) x := by
  obtain ⟨raw, text, rest, rfl, hline, htext, hstop⟩ := exists_stop cs
  cases hstop with
  | quote => exact ⟨_, .string hline htext⟩
  | line hcut hend => exact ⟨_, .unterminated hline htext hcut hend⟩
  | escape hc hno => exact ⟨_, .badEscape hline htext hc hno⟩

theorem readLexeme_quote (cs : List Char) : readLexeme ('"' :: cs) = readString cs := by
  rw [readLexeme_cons (fun h => absurd h (by decide)), if_pos rfl]

/-- At the end of its line a string is not closed. -/
theorem stringBody_line {cut rest : List Char} (hcut : cut = [] ∨ cut = ['\\'])
    (hend : rest = [] ∨ rest.head? = some '\n') : stringBody (cut ++ rest) = .unclosed cut := by
  rcases hend with rfl | hend
  · rcases hcut with rfl | rfl <;> rfl
  · obtain ⟨c, rest, rfl⟩ : ∃ c cs, rest = c :: cs := by
      cases rest with
      | nil => cases hend
      | cons c cs => exact ⟨c, cs, rfl⟩
    obtain rfl : c = '\n' := by simpa using hend
    rcases hcut with rfl | rfl <;> simp [stringBody]

/-! ### Words and symbols -/

theorem isNumber_prefix {c : Char} {cs : List Char} (h : startsNumeral c cs = true) :
    ∃ m, m <+: c :: cs ∧ IsNumber m :=
  ⟨_, (isLongest_numeralOf h).isPrefix, (isLongest_numeralOf h).holds⟩

/-- A plain text starts with no quote and no number, and with no comment. -/
theorem Plain.head {c : Char} {cs : List Char} (h : Plain (c :: cs)) :
    c ≠ '"' ∧ startsNumeral c cs = false ∧ (c = '/' → ∀ ds, cs ≠ '*' :: ds) := by
  refine ⟨?_, ?_, ?_⟩
  · rintro rfl
    exact h.string (List.cons_prefix_cons.mpr ⟨rfl, List.nil_prefix⟩)
  · cases hstart : startsNumeral c cs with
    | false => rfl
    | true =>
      obtain ⟨m, hm, hnumber⟩ := isNumber_prefix hstart
      exact absurd hnumber (h.number m hm)
  · rintro rfl ds rfl
    exact h.comment (by simp)

theorem Plain.readLexeme_eq {c : Char} {cs : List Char} (h : Plain (c :: cs)) :
    readLexeme (c :: cs) = if c.isAlpha then readWord (c :: cs) else readSymbol c cs := by
  obtain ⟨hquote, hnumeral, hcomment⟩ := h.head
  rw [readLexeme_cons hcomment, if_neg hquote, hnumeral, if_neg (by simp)]

theorem IsWord.isLexeme {w : List Char} (h : IsWord w) :
    IsLexeme ((Kind.ofWord w).getD .ident) w := by
  cases hk : Kind.ofWord w with
  | none => exact .name h (Kind.ofWord_eq_none.mp hk)
  | some k =>
    obtain ⟨hmem, rfl | rfl⟩ := Kind.ofWord_eq_some.mp hk
    · exact .lower hmem
    · exact .upper hmem

/-- A lexeme is a word, a symbol, a number or a string, and has the kind of it. -/
theorem IsLexeme.cases {k : Kind} {l : List Char} (h : IsLexeme k l) :
    (IsWord l ∧ k = (Kind.ofWord l).getD .ident) ∨
      (k ∈ Kind.symbols ∧ l = k.spelling.toList) ∨
      (k = .intLiteral ∧ Decimal.isDigits l = true) ∨ (k = .floatLiteral ∧ IsFloat l) ∨
      (k = .stringLiteral ∧ ['"'] <+: l) := by
  cases h with
  | name hw hno => exact .inl ⟨hw, by rw [Kind.ofWord_eq_none.mpr hno]; rfl⟩
  | lower hk =>
    exact .inl ⟨(isWord_of_reserved hk).1, by rw [Kind.ofWord_eq_some.mpr ⟨hk, .inl rfl⟩]; rfl⟩
  | upper hk =>
    exact .inl ⟨(isWord_of_reserved hk).2, by rw [Kind.ofWord_eq_some.mpr ⟨hk, .inr rfl⟩]; rfl⟩
  | symbol hk => exact .inr (.inl ⟨hk, rfl⟩)
  | int hds => exact .inr (.inr (.inl ⟨rfl, hds⟩))
  | float hm => exact .inr (.inr (.inr (.inl ⟨rfl, hm⟩)))
  | string => exact .inr (.inr (.inr (.inr ⟨rfl, List.cons_prefix_cons.mpr ⟨rfl, List.nil_prefix⟩⟩)))

/-- Where neither a number nor a string starts, a lexeme is a word or a symbol. -/
theorem IsLexeme.cases_of_plain {k : Kind} {l cs : List Char} (h : IsLexeme k l) (hl : l <+: cs)
    (hcs : Plain cs) :
    (IsWord l ∧ k = (Kind.ofWord l).getD .ident) ∨ (k ∈ Kind.symbols ∧ l = k.spelling.toList) := by
  rcases h.cases with hw | hsymbol | ⟨-, hds⟩ | ⟨-, hm⟩ | ⟨-, hquote⟩
  · exact .inl hw
  · exact .inr hsymbol
  · exact absurd (.inl hds) (hcs.number l hl)
  · exact absurd (.inr hm) (hcs.number l hl)
  · exact absurd (hquote.trans hl) hcs.string

theorem IsWord.head {w : List Char} (h : IsWord w) {c : Char} {cs : List Char} (hw : w <+: c :: cs) :
    c.isAlpha = true := by
  obtain ⟨hhead, -⟩ := h
  cases w with
  | nil => cases hhead
  | cons d w =>
    obtain ⟨rfl, -⟩ := List.cons_prefix_cons.mp hw
    simpa using hhead

/-- A symbol at the front of a text makes it start with no letter. -/
theorem head_of_symbol {k : Kind} (hk : k ∈ Kind.symbols) {c : Char} {cs : List Char}
    (hl : k.spelling.toList <+: c :: cs) : c.isAlpha = false := by
  obtain ⟨d, ds, hd⟩ := List.exists_cons_of_ne_nil (spelling_ne_nil_of_mem_symbols k hk)
  rw [hd] at hl
  obtain ⟨rfl, -⟩ := List.cons_prefix_cons.mp hl
  exact (head_symbol hk hd).2.2.2.1

theorem isLongest_takeWhile {c : Char} {cs : List Char} (hcs : Plain (c :: cs))
    (hc : c.isAlpha = true) :
    IsWord ((c :: cs).takeWhile isWordChar) ∧
      IsLongest (fun l => ∃ k, IsLexeme k l) ((c :: cs).takeWhile isWordChar) (c :: cs) := by
  have hword : IsWord ((c :: cs).takeWhile isWordChar) := by
    refine ⟨?_, List.all_takeWhile⟩
    rw [List.takeWhile_cons_of_pos (isWordChar_of_isAlpha hc)]
    exact hc
  refine ⟨hword, List.takeWhile_prefix _, ⟨_, hword.isLexeme⟩, ?_⟩
  rintro l hl ⟨k, hk⟩
  rcases hk.cases_of_plain hl hcs with ⟨hw, -⟩ | ⟨hmem, rfl⟩
  · exact (isPrefix_takeWhile (List.all_eq_true.mp hw.2) hl).length_le
  · have := head_of_symbol hmem hl
    rw [hc] at this
    cases this

/-- Symbols are looked for in the order of their lengths. -/
theorem symbols_pairwise :
    Kind.symbols.Pairwise fun k l => l.spelling.toList.length ≤ k.spelling.toList.length := by
  decide

theorem symbol_inj {k l : Kind} (hk : k ∈ Kind.symbols) (hl : l ∈ Kind.symbols)
    (h : k.spelling.toList = l.spelling.toList) : k = l := by
  have hfind := find?_symbols k hk
  rw [h, find?_symbols l hl] at hfind
  exact (Option.some.inj hfind).symm

/-- The symbol that is found at the front of a text is the longest one. -/
theorem length_le_of_find? {cs : List Char} {k : Kind}
    (h : (Kind.symbols.find? fun k => k.spelling.toList.isPrefixOf cs) = some k) {l : Kind}
    (hl : l ∈ Kind.symbols) (hcs : l.spelling.toList <+: cs) :
    l.spelling.toList.length ≤ k.spelling.toList.length := by
  obtain ⟨-, before, behind, hsymbols, hbefore⟩ := List.find?_eq_some_iff_append.mp h
  have hpairwise := symbols_pairwise
  rw [hsymbols] at hl hpairwise
  rcases List.mem_append.mp hl with hl | hl
  · have := hbefore l hl
    rw [List.isPrefixOf_iff_prefix.mpr hcs] at this
    cases this
  · rcases List.mem_cons.mp hl with rfl | hl
    · exact Nat.le_refl _
    · exact (List.pairwise_cons.mp (List.pairwise_append.mp hpairwise).2.1).1 l hl

/-- The symbol that is found where no letter stands is the longest lexeme. -/
theorem isLongest_of_find? {c : Char} {cs : List Char} (hcs : Plain (c :: cs))
    (hc : c.isAlpha = false) {k : Kind}
    (h : (Kind.symbols.find? fun k => k.spelling.toList.isPrefixOf (c :: cs)) = some k) :
    k ∈ Kind.symbols ∧
      IsLongest (fun l => ∃ k, IsLexeme k l) k.spelling.toList (c :: cs) := by
  have hk : k ∈ Kind.symbols := List.mem_of_find?_eq_some h
  have hfound := List.find?_some h
  refine ⟨hk, List.isPrefixOf_iff_prefix.mp hfound, ⟨k, .symbol hk⟩, ?_⟩
  rintro l hl ⟨k', hk'⟩
  rcases hk'.cases_of_plain hl hcs with ⟨hw, -⟩ | ⟨hmem, rfl⟩
  · rw [hw.head hl] at hc
    cases hc
  · exact length_le_of_find? h hmem hl

/-! ### Every text is read, and as it is read -/

/-- A plain text is read: by its longest lexeme, or not at all if no lexeme starts it. -/
theorem exists_reads_plain {c : Char} {cs : List Char} (hcs : Plain (c :: cs)) :
    ∃ x, Reads (c :: cs) x := by
  have hlexeme : ∀ k l, IsLexeme k l → IsLongest (fun l => ∃ k, IsLexeme k l) l (c :: cs) →
      ∃ x, Reads (c :: cs) x := by
    intro k l hk hl
    obtain ⟨rest, hrest⟩ := hl.isPrefix
    rw [← hrest] at hl hcs ⊢
    exact ⟨_, .lexeme hcs hk hl⟩
  cases hc : c.isAlpha with
  | true =>
    obtain ⟨hw, hl⟩ := isLongest_takeWhile hcs hc
    exact hlexeme _ _ hw.isLexeme hl
  | false =>
    cases hfind : Kind.symbols.find? fun k => k.spelling.toList.isPrefixOf (c :: cs) with
    | some k =>
      obtain ⟨hk, hl⟩ := isLongest_of_find? hcs hc hfind
      exact hlexeme _ _ (.symbol hk) hl
    | none =>
      refine ⟨_, .unexpected hcs fun k l hl hk => ?_⟩
      rcases hk.cases_of_plain hl hcs with ⟨hw, -⟩ | ⟨hmem, rfl⟩
      · rw [hw.head hl] at hc
        cases hc
      · exact List.find?_eq_none.mp hfind k hmem (List.isPrefixOf_iff_prefix.mpr hl)

theorem exists_reads_number {c : Char} {cs : List Char} (h : startsNumeral c cs = true) :
    ∃ x, Reads (c :: cs) x := by
  have hlongest := isLongest_numeralOf h
  generalize (numeralOf (c :: cs)).1 ++ (numeralOf (c :: cs)).2 = m at hlongest
  obtain ⟨rest, hrest⟩ := hlongest.isPrefix
  rw [← hrest] at hlongest ⊢
  cases hspoils : rest.head?.any spoilsNumber with
  | true => exact ⟨_, .malformed hlongest hspoils⟩
  | false =>
    rcases hlongest.holds with hds | hfloat
    · rcases Nat.lt_or_ge (Decimal.value m) (2 ^ 63) with hvalue | hvalue
      · exact ⟨_, .int hlongest hspoils hds hvalue⟩
      · exact ⟨_, .tooLarge hlongest hspoils hds hvalue⟩
    · exact ⟨_, .float hlongest hspoils hfloat⟩

/-- Every text is read. -/
theorem exists_reads (cs : List Char) : ∃ x, Reads cs x := by
  cases cs with
  | nil => exact ⟨_, .nothing⟩
  | cons c cs =>
    by_cases hquote : c = '"'
    · subst hquote
      exact exists_reads_string cs
    by_cases hnumeral : startsNumeral c cs = true
    · exact exists_reads_number hnumeral
    by_cases hcomment : ['/', '*'] <+: c :: cs
    · obtain ⟨ds, hds⟩ := hcomment
      rw [← hds]
      exact ⟨_, .comment⟩
    · refine exists_reads_plain ⟨fun m hm hnumber => ?_, fun hstring => ?_, hcomment⟩
      · obtain ⟨d, ds, hds, hstart⟩ := hnumber.exists_cons hm
        obtain ⟨rfl, rfl⟩ := List.cons.inj hds
        exact hnumeral hstart
      · exact hquote (List.cons_prefix_cons.mp hstring).1.symm

theorem readLexeme_number {m rest : List Char} (h : IsLongest IsNumber m (m ++ rest)) :
    readLexeme (m ++ rest) = readNumeral (m ++ rest) := by
  obtain ⟨c, cs, hcs, hstart⟩ := h.holds.exists_cons h.isPrefix
  obtain ⟨-, hslash, hquote⟩ := startsNumeral_head hstart
  rw [hcs, readLexeme_cons (fun hc => absurd hc hslash), if_neg hquote, hstart, if_pos rfl]

/-- The longest lexeme of a plain text is what is read. -/
theorem readLexeme_plain {kind : Kind} {lexeme rest : List Char} (hcs : Plain (lexeme ++ rest))
    (hkind : IsLexeme kind lexeme)
    (h : IsLongest (fun l => ∃ k, IsLexeme k l) lexeme (lexeme ++ rest)) :
    readLexeme (lexeme ++ rest) = .token kind (String.ofList lexeme) lexeme rest := by
  rcases hkind.cases_of_plain h.isPrefix hcs with ⟨hw, rfl⟩ | ⟨hmem, rfl⟩
  · obtain ⟨c, cs, hc⟩ : ∃ c cs, lexeme ++ rest = c :: cs := by
      cases lexeme with
      | nil => cases hw.1
      | cons c cs => exact ⟨c, cs ++ rest, rfl⟩
    have hprefix := h.isPrefix
    have hrest : (lexeme ++ rest).drop lexeme.length = rest := List.drop_left
    rw [hc] at hcs h hprefix hrest ⊢
    have halpha := hw.head hprefix
    have hlexeme : (c :: cs).takeWhile isWordChar = lexeme := (isLongest_takeWhile hcs halpha).2.unique h
    rw [hcs.readLexeme_eq, if_pos halpha, readWord, hlexeme, hrest]
  · obtain ⟨c, cs, hc⟩ : ∃ c cs, kind.spelling.toList ++ rest = c :: cs :=
      List.exists_cons_of_ne_nil fun h0 =>
        spelling_ne_nil_of_mem_symbols kind hmem (List.append_eq_nil_iff.mp h0).1
    have hprefix := h.isPrefix
    have hrest : (kind.spelling.toList ++ rest).drop kind.spelling.toList.length = rest :=
      List.drop_left
    rw [hc] at hcs h hprefix hrest ⊢
    have halpha := head_of_symbol hmem hprefix
    have hfind : (Kind.symbols.find? fun k => k.spelling.toList.isPrefixOf (c :: cs)) = some kind := by
      cases hfind : Kind.symbols.find? fun k => k.spelling.toList.isPrefixOf (c :: cs) with
      | none =>
        exact absurd (List.isPrefixOf_iff_prefix.mpr hprefix) (List.find?_eq_none.mp hfind kind hmem)
      | some k =>
        obtain ⟨hk, hlongest⟩ := isLongest_of_find? hcs halpha hfind
        rw [symbol_inj hk hmem (hlongest.unique h)]
    rw [hcs.readLexeme_eq, halpha, if_neg (by simp), readSymbol, hfind]
    simp only [hrest, String.ofList_toList]

/-- Where no lexeme starts, the first character is unexpected. -/
theorem readLexeme_unexpected {c : Char} {cs : List Char} (hcs : Plain (c :: cs))
    (h : ∀ k l, l <+: c :: cs → ¬ IsLexeme k l) :
    readLexeme (c :: cs) = .fault [] (.unexpectedCharacter c) := by
  have halpha : c.isAlpha = false := by
    cases hc : c.isAlpha with
    | false => rfl
    | true =>
      obtain ⟨hw, hlongest⟩ := isLongest_takeWhile hcs hc
      exact absurd hw.isLexeme (h _ _ hlongest.isPrefix)
  have hfind : (Kind.symbols.find? fun k => k.spelling.toList.isPrefixOf (c :: cs)) = none := by
    cases hfind : Kind.symbols.find? fun k => k.spelling.toList.isPrefixOf (c :: cs) with
    | none => rfl
    | some k =>
      obtain ⟨hk, hlongest⟩ := isLongest_of_find? hcs halpha hfind
      exact absurd (.symbol hk) (h _ _ hlongest.isPrefix)
  rw [hcs.readLexeme_eq, halpha, if_neg (by simp), readSymbol, hfind]

/-- **What the grammar reads is read.** -/
theorem Reads.readLexeme_eq {cs : List Char} {x : Reading} (h : Reads cs x) : readLexeme cs = x := by
  cases h with
  | nothing => rfl
  | comment => rfl
  | malformed hm hspoils => rw [readLexeme_number hm, readNumeral_eq hm, if_pos hspoils]
  | tooLarge hm hspoils hds hvalue =>
    rw [readLexeme_number hm, readNumeral_eq hm, hspoils, hds, if_neg (by decide),
      if_neg (by decide), if_neg (Nat.not_lt.mpr hvalue)]
  | int hm hspoils hds hvalue =>
    rw [readLexeme_number hm, readNumeral_eq hm, hspoils, hds, if_neg (by decide),
      if_neg (by decide), if_pos hvalue]
  | float hm hspoils hfloat =>
    rw [readLexeme_number hm, readNumeral_eq hm, hspoils, hfloat.isDigits_eq_false]
    rfl
  | string hline htext =>
    rw [readLexeme_quote, readString, stringBody_append hline htext]
    simp [stringBody, StringBody.prepend]
  | badEscape hline htext hc hno =>
    rw [readLexeme_quote, readString, stringBody_append hline htext]
    simp [stringBody, hno, StringBody.prepend]
  | unterminated hline htext hcut hend =>
    rw [readLexeme_quote, readString, stringBody_append hline htext, stringBody_line hcut hend]
    rfl
  | lexeme hcs hkind h => exact readLexeme_plain hcs hkind h
  | unexpected hcs hno => exact readLexeme_unexpected hcs hno

/-- The grammar reads a text in one way, as it is read. -/
theorem reads_iff {cs : List Char} {x : Reading} : Reads cs x ↔ readLexeme cs = x := by
  refine ⟨Reads.readLexeme_eq, ?_⟩
  rintro rfl
  obtain ⟨x, hx⟩ := exists_reads cs
  rwa [hx.readLexeme_eq]

theorem IsGap.isPrefix_gap {g rest : List Char} (h : IsGap g rest) : g <+: gap (g ++ rest) := by
  induction h with
  | nil => exact List.nil_prefix
  | @cons piece others rest hpiece _ ih =>
    have hfirst := hpiece.gapPiece_append
    rw [List.append_assoc, gap_of_gapPiece_ne_nil (by rw [hfirst]; exact hpiece.ne_nil), hfirst,
      List.drop_left]
    exact (List.prefix_append_right_inj piece).mpr ih

end Token

open Token in
/-- **The scanner reads by longest match.** From every place of a text it skips
the longest gap, and what is left has one reading by the lexical grammar, which
is the next item: the token where the gap ends, or the error. -/
theorem Cursor.next_eq_longest_match (c : Cursor) :
    ∃ g r x, c.rest = g ++ r ∧ IsGap g r ∧
      (∀ g' r', c.rest = g' ++ r' → IsGap g' r' → g' <+: g) ∧
      (∀ y, Reads r y ↔ y = x) ∧ c.next = x.step (c.position.after g) := by
  obtain ⟨r, hrest, hgap⟩ := gap_spec c.rest
  have hdrop : c.rest.drop (gap c.rest).length = r := drop_of_eq_append hrest
  refine ⟨gap c.rest, r, readLexeme r, hrest, hgap, ?_, ?_, ?_⟩
  · intro g' r' hcut hgap'
    rw [hcut]
    exact hgap'.isPrefix_gap
  · intro y
    rw [reads_iff, eq_comm]
  · unfold Cursor.next
    simp only [hdrop]
    cases readLexeme r <;> rfl

/-- A token stands behind a gap, where it is read, or at the end of the text. -/
theorem Cursor.token_of_next {c : Cursor} {t : Token} (h : c.next.1 = .ok t) :
    ∃ ahead cs, c.rest = ahead ++ cs ∧ t.position = c.position.after ahead ∧
      (t.kind = .eof ∨ ∃ lexeme rest, Token.Reads cs (.token t.kind t.text lexeme rest)) := by
  obtain ⟨r, hrest, -, hnext⟩ := c.exists_reading
  refine ⟨Token.gap c.rest, r, hrest, ?_⟩
  rw [hnext] at h
  cases hread : Token.readLexeme r with
  | token kind text lexeme rest =>
    rw [hread] at h
    obtain rfl := Except.ok.inj h
    exact ⟨rfl, .inr ⟨lexeme, rest, Token.reads_iff.mpr hread⟩⟩
  | fault before cause =>
    rw [hread] at h
    cases h
  | nothing =>
    rw [hread] at h
    obtain rfl := Except.ok.inj h
    exact ⟨rfl, .inl rfl⟩

end SyntaxGraph
