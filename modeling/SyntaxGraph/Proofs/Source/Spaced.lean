/-
# Terminals in a source text

Terminals are written in lower case, strings with escapes, and with single
spaces between them. What the scanner makes of such a text shows as these
terminals, if each of them has a spelling: reserved words and symbols, names,
integers of a word without a sign, and all strings.

Key definitions: `Terminal.lexeme`, `Terminal.spaced`, `Terminal.IsSpelled`, `IsName`.
Key theorems: `Terminal.items_spaced`.
-/
import SyntaxGraph.Proofs.Grammar.Acceptance
import SyntaxGraph.Proofs.Token.Written

namespace SyntaxGraph

/-- A name: a letter, and then letters, digits and underscores, but no reserved
word in lower case throughout or in upper case throughout. -/
structure IsName (name : String) : Prop where
  isWord : Token.IsWord name.toList
  not_reserved : ∀ k ∈ Token.Kind.reserved,
    name.toList ≠ k.spelling.toList ∧ name.toList ≠ k.spelling.toList.map Char.toUpper

instance (name : String) : Decidable (IsName name) :=
  decidable_of_iff (Token.IsWord name.toList ∧ ∀ k ∈ Token.Kind.reserved,
      name.toList ≠ k.spelling.toList ∧ name.toList ≠ k.spelling.toList.map Char.toUpper)
    ⟨fun h => ⟨h.1, h.2⟩, fun h => ⟨h.1, h.2⟩⟩

namespace Terminal

/-- The text of the token that a terminal is written as. -/
def content (x : Terminal) : String :=
  if x.kind.isOpen then x.text else x.kind.spelling

/-- The characters that a terminal is written as. -/
def lexeme (x : Terminal) : List Char :=
  if x.kind = .stringLiteral then Token.literal x.text else x.content.toList

/-- Terminals with single spaces between them. -/
def spaced : List Terminal → List Char
  | [] => []
  | x :: xs => x.lexeme ++ xs.flatMap fun y => ' ' :: y.lexeme

/-- The terminal has a spelling, and it is written so. -/
def IsSpelled (x : Terminal) : Prop :=
  Token.IsSpelling x.kind x.content x.lexeme

theorem isSpelled_word {k : Token.Kind} (h : k ∈ Token.Kind.reserved ∨ k ∈ Token.Kind.symbols) :
    (word k).IsSpelled := by
  have hopen : k.isOpen = false ∧ k ≠ .stringLiteral := by
    rcases h with h | h
    · exact (by decide : ∀ k ∈ Token.Kind.reserved, k.isOpen = false ∧ k ≠ .stringLiteral) k h
    · exact (by decide : ∀ k ∈ Token.Kind.symbols, k.isOpen = false ∧ k ≠ .stringLiteral) k h
  have hcontent : (word k).content = k.spelling := by simp [content, hopen.1]
  have hlexeme : (word k).lexeme = k.spelling.toList := by simp [lexeme, hopen.2, hcontent]
  rw [IsSpelled, hcontent, hlexeme]
  rcases h with h | h
  · have hw : Token.IsWord k.spelling.toList := (Token.isWord_of_reserved h).1
    have hk : Token.Kind.ofWord k.spelling.toList = some k := Token.Kind.ofWord_eq_some.mpr ⟨h, .inl rfl⟩
    have := Token.IsSpelling.word hw
    rwa [hk, Option.getD_some, String.ofList_toList] at this
  · exact .symbol h

theorem isSpelled_cons {k : Token.Kind} {xs : List Terminal}
    (hk : k ∈ Token.Kind.reserved ∨ k ∈ Token.Kind.symbols) (hxs : ∀ x ∈ xs, x.IsSpelled) :
    ∀ x ∈ word k :: xs, x.IsSpelled :=
  List.forall_mem_cons.mpr ⟨isSpelled_word hk, hxs⟩

theorem isSpelled_append {k : Token.Kind} {xs ys : List Terminal} (hxs : ∀ x ∈ xs, x.IsSpelled)
    (hk : k ∈ Token.Kind.reserved ∨ k ∈ Token.Kind.symbols) (hys : ∀ y ∈ ys, y.IsSpelled) :
    ∀ x ∈ xs ++ word k :: ys, x.IsSpelled :=
  List.forall_mem_append.mpr ⟨hxs, isSpelled_cons hk hys⟩

theorem isSpelled_joined {k : Token.Kind} {α β : Type} {write : α → β} {yield : β → List Terminal}
    {as : List α} (hk : k ∈ Token.Kind.reserved ∨ k ∈ Token.Kind.symbols)
    (h : ∀ a ∈ as, ∀ x ∈ yield (write a), x.IsSpelled) :
    ∀ x ∈ joined k ((as.map write).map yield), x.IsSpelled := by
  cases as with
  | nil => exact nofun
  | cons a as =>
    obtain ⟨ha, has⟩ := List.forall_mem_cons.mp h
    refine List.forall_mem_append.mpr ⟨ha, fun x hx => ?_⟩
    obtain ⟨v, hv, hx⟩ := List.mem_flatMap.mp hx
    have hvs : ∀ v ∈ (as.map write).map yield, ∀ y ∈ v, y.IsSpelled :=
      List.forall_mem_map.mpr (List.forall_mem_map.mpr has)
    exact isSpelled_cons hk (hvs v hv) x hx

theorem isSpelled_ident {name : String} (h : IsName name) : (ident name).IsSpelled := by
  have hno : Token.Kind.ofWord name.toList = none := Token.Kind.ofWord_eq_none.mpr h.not_reserved
  have := Token.IsSpelling.word h.isWord
  rwa [hno, Option.getD_none, String.ofList_toList] at this

theorem isSpelled_string (text : String) : (string text).IsSpelled :=
  .string

end Terminal

namespace Decimal

theorem intText_of_nonneg {i : Int} (h : 0 ≤ i) : (intText i).toList = digits i.toNat := by
  have hi : i.natAbs = i.toNat := by omega
  rw [intText, if_neg (by omega), natText, String.toList_ofList, hi]

theorem readInt_intText {i : Int} (h : 0 ≤ i) (hword : i < 2 ^ 63) :
    readInt (intText i).toList = some i := by
  have hvalue : value (digits i.toNat) = i.toNat := value_digits _
  rw [intText_of_nonneg h, Token.readInt_digits (isDigits_digits _) (by omega), hvalue,
    Int.toNat_of_nonneg h]

end Decimal

namespace Terminal

theorem isSpelled_int {i : Int} (h : 0 ≤ i) (hword : i < 2 ^ 63) :
    (int (Decimal.intText i)).IsSpelled := by
  have hvalue : Decimal.value (Decimal.digits i.toNat) = i.toNat := Decimal.value_digits _
  have := Token.IsSpelling.int (Decimal.isDigits_digits i.toNat) (by omega)
  rwa [← Decimal.intText_of_nonneg h, String.ofList_toList] at this

/-! ### Scanning terminals -/

/-- A terminal as a written token. -/
def written (gap : List Char) (x : Terminal) : Written :=
  ⟨gap, x.lexeme, x.kind, x.content⟩

/-- Spaced terminals as written tokens. -/
def row : List Terminal → List Written
  | [] => []
  | x :: xs => x.written [] :: xs.map (written [' '])

theorem source_row (xs : List Terminal) : Written.source (row xs) = spaced xs := by
  cases xs with
  | nil => rfl
  | cons x xs => simp [row, Written.source, written, spaced, List.flatMap_map]

theorem texts_row (xs : List Terminal) :
    (row xs).map (fun w => (w.kind, w.text)) = xs.map fun x => (x.kind, x.content) := by
  cases xs with
  | nil => rfl
  | cons x xs => simp [row, written]

theorem legal_row {xs : List Terminal} (h : ∀ x ∈ xs, x.IsSpelled) : ∀ w ∈ row xs, w.Legal := by
  have hspace : ∀ rest, Token.IsGap [' '] rest := fun rest => .cons (.blank (by decide)) .nil
  cases xs with
  | nil => exact nofun
  | cons x xs =>
    obtain ⟨hx, hxs⟩ := List.forall_mem_cons.mp h
    refine List.forall_mem_cons.mpr ⟨⟨fun rest => .nil, hx⟩, fun w hw => ?_⟩
    obtain ⟨y, hy, rfl⟩ := List.mem_map.mp hw
    exact ⟨hspace, hxs y hy⟩

theorem parted_row (xs : List Terminal) : ∀ w ∈ (row xs).tail, w.Parted := by
  have hspace : Token.Apart [' '] := by
    rintro c ⟨⟩
    decide
  cases xs with
  | nil => exact nofun
  | cons x xs =>
    intro w hw
    obtain ⟨y, -, rfl⟩ := List.mem_map.mp hw
    exact ⟨nofun, hspace⟩

theorem terminals_eq {xs : List Terminal} :
    ∀ {ts : List Token}, ts.map (fun t => (t.kind, t.text)) = xs.map (fun x => (x.kind, x.content)) →
      terminals ts = xs := by
  induction xs with
  | nil =>
    intro ts h
    rw [List.map_nil, List.map_eq_nil_iff] at h
    rw [h, terminals_nil]
  | cons x xs ih =>
    intro ts h
    obtain ⟨t, us, rfl, ht, hus⟩ := List.map_eq_cons_iff.mp h
    have hkind : t.kind = x.kind := congrArg Prod.fst ht
    have htext : t.text = x.content := congrArg Prod.snd ht
    have hx : t.terminal = x := Token.terminal_eq hkind fun hopen => by rw [htext, content, if_pos hopen]
    rw [terminals_cons, hx, ih hus]

/-- **Spaced terminals are scanned** as tokens that show as them, before the end
of the input. -/
theorem items_spaced {xs : List Terminal} (h : ∀ x ∈ xs, x.IsSpelled) :
    ∃ (ts : List Token) (p : Position),
      (Scanner.ofSource (String.ofList (spaced xs))).items =
        ts.map .ok ++ [.ok (Token.endOfInput p)] ∧
      terminals ts = xs ∧ ∀ t ∈ ts, t.kind ≠ .eof := by
  have hsource : (String.ofList (spaced xs)).toList = Written.source (row xs) ++ [] := by
    rw [String.toList_ofList, source_row, List.append_nil]
  obtain ⟨ts, p, hitems, htexts⟩ := Cursor.items_written .nil Token.apart_nil (row xs)
    ⟨.start, (String.ofList (spaced xs)).toList⟩ hsource (legal_row h) (parted_row xs)
  have hterminals : terminals ts = xs := terminals_eq (htexts.trans (texts_row xs))
  refine ⟨ts, p, hitems, hterminals, fun t ht => ?_⟩
  have hmem : t.terminal ∈ xs := hterminals ▸ List.mem_map_of_mem ht
  exact (h _ hmem).kind_ne_eof

end Terminal
end SyntaxGraph
