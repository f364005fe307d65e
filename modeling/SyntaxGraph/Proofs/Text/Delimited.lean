/-
# Texts that show where they end

A text between quotes shows where it ends if a reader gets each of its
characters back from how it is written, whatever follows, and gets nothing from
a quote. Both ways to write a text in quotes have such a reader. Lines show
where they end if none of them holds a newline, and numbers if no digit follows.

Key definitions: `Text.ReadsBack`.
Key theorems: `Text.ReadsBack.flatMap_inj`, `Text.quoted_injective`, `dotQuoted_append_inj`,
`Text.unlines_inj`, `Decimal.natText_injective`, `Decimal.intText_injective`,
`vertexName_injective`.
-/
import SyntaxGraph.Decimal.Read
import SyntaxGraph.Graph.Dot
import SyntaxGraph.Text.Quoted

namespace SyntaxGraph

section

variable {α : Type} {p : α → Bool} {v w r s : List α}

theorem takeWhile_append_of_head (hv : ∀ c ∈ v, p c = true) (hr : r.head?.any p = false) :
    (v ++ r).takeWhile p = v := by
  rw [List.takeWhile_append_of_pos hv]
  cases r with
  | nil => rw [List.takeWhile_nil, List.append_nil]
  | cons c r => rw [List.takeWhile_cons_of_neg (by simpa using hr), List.append_nil]

theorem dropWhile_append_of_head (hv : ∀ c ∈ v, p c = true) (hr : r.head?.any p = false) :
    (v ++ r).dropWhile p = r := by
  rw [List.dropWhile_append_of_pos hv]
  cases r with
  | nil => rfl
  | cons c r => exact List.dropWhile_cons_of_neg (by simpa using hr)

theorem run_append_inj (hv : ∀ c ∈ v, p c = true) (hw : ∀ c ∈ w, p c = true)
    (hr : r.head?.any p = false) (hs : s.head?.any p = false) (h : v ++ r = w ++ s) :
    v = w ∧ r = s := by
  have hvw : v = w := by
    rw [← takeWhile_append_of_head hv hr, h, takeWhile_append_of_head hw hs]
  subst hvw
  exact ⟨rfl, List.append_cancel_left h⟩

end

theorem forall_ne_of_not_mem {α : Type} [DecidableEq α] {a : α} {as : List α} (h : a ∉ as) :
    ∀ b ∈ as, decide (b ≠ a) = true := by
  intro b hb
  exact decide_eq_true fun hab => h (hab ▸ hb)

/-- A text for each member of a list tells the member if it finds no other one first. -/
theorem injective_of_find? {α β : Type} [DecidableEq β] {f : α → β} {all : List α}
    (hall : ∀ a, a ∈ all) (hfind : ∀ a ∈ all, (all.find? fun b => f b = f a) = some a) :
    Function.Injective f := by
  intro a b hab
  have ha := hfind a (hall a)
  rw [hab, hfind b (hall b)] at ha
  exact (Option.some.inj ha).symm

/-- What is shown of the members of lists is the same if those that are written alike
show the same. -/
theorem map_eq_map_of {α β γ : Type} {f : α → β} {g : α → γ} : ∀ {as bs : List α},
    (∀ a ∈ as, ∀ b ∈ bs, f a = f b → g a = g b) → as.map f = bs.map f → as.map g = bs.map g
  | [], [], _, _ => rfl
  | [], _ :: _, _, heq => nomatch heq
  | _ :: _, [], _, heq => nomatch heq
  | a :: as, b :: bs, h, heq => by
    obtain ⟨hab, hrest⟩ := List.cons.inj heq
    have htail : as.map g = bs.map g := map_eq_map_of (fun c hc d hd =>
      h c (List.mem_cons_of_mem _ hc) d (List.mem_cons_of_mem _ hd)) hrest
    rw [List.map_cons, List.map_cons, htail, h a (List.mem_cons_self ..) b (List.mem_cons_self ..) hab]

namespace Text

/-! ### Quotes -/

/-- The reader gets each character back from how it is written, whatever
follows, and nothing from a quote. -/
structure ReadsBack (write : Char → List Char) (read : List Char → Option (Char × List Char)) :
    Prop where
  read_write : ∀ c rest, read (write c ++ rest) = some (c, rest)
  read_quote : ∀ rest, read ('"' :: rest) = none

/-- A text in quotes shows where it ends. -/
theorem ReadsBack.flatMap_inj {write : Char → List Char}
    {read : List Char → Option (Char × List Char)} (h : ReadsBack write read) {r s : List Char} :
    ∀ {cs ds : List Char}, cs.flatMap write ++ '"' :: r = ds.flatMap write ++ '"' :: s →
      cs = ds ∧ r = s
  | [], [], heq => ⟨rfl, (List.cons.inj heq).2⟩
  | [], d :: ds, heq => by
    have hread := h.read_quote r
    rw [List.flatMap_nil, List.nil_append] at heq
    rw [heq, List.flatMap_cons, List.append_assoc, h.read_write] at hread
    cases hread
  | c :: cs, [], heq => by
    have hread := h.read_quote s
    rw [List.flatMap_nil, List.nil_append] at heq
    rw [← heq, List.flatMap_cons, List.append_assoc, h.read_write] at hread
    cases hread
  | c :: cs, d :: ds, heq => by
    have hread := congrArg read heq
    simp only [List.flatMap_cons, List.append_assoc, h.read_write, Option.some.injEq,
      Prod.mk.injEq] at hread
    obtain ⟨rfl, hrest⟩ := hread
    obtain ⟨rfl, rfl⟩ := h.flatMap_inj hrest
    exact ⟨rfl, rfl⟩

/-! ### Characters by their codes -/

/-- The value of a hexadecimal digit. -/
def hexDigit (c : Char) : Nat :=
  if c.isDigit then c.toNat - 48 else c.toNat - 87

/-- The value of hexadecimal digits, most significant first. -/
def hexValue (ds : List Char) : Nat :=
  ds.foldl (fun n d => 16 * n + hexDigit d) 0

theorem hexDigit_digitChar :
    ∀ d < 16, hexDigit d.digitChar = d ∧ d.digitChar.isAlphanum = true := by
  decide

/-- Hexadecimal digits stand for their number, and they are letters and digits. -/
theorem hexValue_toDigits (n : Nat) :
    hexValue (Nat.toDigits 16 n) = n ∧ ∀ c ∈ Nat.toDigits 16 n, c.isAlphanum = true := by
  induction n using Nat.strongRecOn with
  | ind n ih =>
    rw [Nat.toDigits_eq_if (by omega)]
    by_cases hn : n < 16
    · obtain ⟨hvalue, halphanum⟩ := hexDigit_digitChar n hn
      rw [if_pos hn]
      exact ⟨by simp [hexValue, hvalue], List.forall_mem_singleton.mpr halphanum⟩
    · obtain ⟨ihvalue, ihalphanum⟩ := ih (n / 16) (by omega)
      obtain ⟨hvalue, halphanum⟩ := hexDigit_digitChar (n % 16) (by omega)
      rw [if_neg hn]
      refine ⟨?_, List.forall_mem_append.mpr ⟨ihalphanum, List.forall_mem_singleton.mpr halphanum⟩⟩
      unfold hexValue at ihvalue ⊢
      rw [List.foldl_append, ihvalue, List.foldl_cons, List.foldl_nil, hvalue]
      omega

/-- Reads a character that stands for itself, or one behind a backslash. -/
def unescapeQuoted : List Char → Option (Char × List Char)
  | '\\' :: '0' :: cs => some ('\x00', cs)
  | '\\' :: 't' :: cs => some ('\t', cs)
  | '\\' :: 'r' :: cs => some ('\r', cs)
  | '\\' :: 'n' :: cs => some ('\n', cs)
  | '\\' :: 'u' :: '\x7b' :: cs =>
    some (Char.ofNat (hexValue (cs.takeWhile (· ≠ '\x7d'))), (cs.dropWhile (· ≠ '\x7d')).drop 1)
  | '\\' :: c :: cs => some (c, cs)
  | '"' :: _ => none
  | c :: cs => some (c, cs)
  | [] => none

theorem unescapeQuoted_cons {c : Char} (hbackslash : c ≠ '\\') (hquote : c ≠ '"')
    (rest : List Char) : unescapeQuoted (c :: rest) = some (c, rest) := by
  unfold unescapeQuoted
  split <;> simp_all

/-- A code is read to the brace that ends it. -/
theorem unescapeQuoted_escapeCode (c : Char) (rest : List Char) :
    unescapeQuoted (escapeCode c ++ rest) = some (c, rest) := by
  obtain ⟨hvalue, halphanum⟩ := hexValue_toDigits c.toNat
  have hdigits : ∀ d ∈ Nat.toDigits 16 c.toNat, decide (d ≠ '\x7d') = true :=
    forall_ne_of_not_mem fun hmem => absurd (halphanum _ hmem) (by decide)
  have htake : (Nat.toDigits 16 c.toNat ++ '\x7d' :: rest).takeWhile (· ≠ '\x7d') =
      Nat.toDigits 16 c.toNat := by
    rw [List.takeWhile_append_of_pos hdigits, List.takeWhile_cons_of_neg (by simp), List.append_nil]
  have hdrop : (Nat.toDigits 16 c.toNat ++ '\x7d' :: rest).dropWhile (· ≠ '\x7d') =
      '\x7d' :: rest := by
    rw [List.dropWhile_append_of_pos hdigits, List.dropWhile_cons_of_neg (by simp)]
  have hcode : escapeCode c ++ rest =
      '\\' :: 'u' :: '\x7b' :: (Nat.toDigits 16 c.toNat ++ '\x7d' :: rest) := by
    simp [escapeCode]
  rw [hcode, unescapeQuoted, htake, hdrop, hvalue, Char.ofNat_toNat]
  rfl

theorem readsBack_escape : ReadsBack escape unescapeQuoted := by
  refine ⟨fun c rest => ?_, fun rest => rfl⟩
  by_cases hzero : c = '\x00'
  · subst hzero; rfl
  by_cases htab : c = '\t'
  · subst htab; rfl
  by_cases hreturn : c = '\r'
  · subst hreturn; rfl
  by_cases hnewline : c = '\n'
  · subst hnewline; rfl
  by_cases hbackslash : c = '\\'
  · subst hbackslash; rfl
  by_cases hquote : c = '"'
  · subst hquote; rfl
  rw [escape, if_neg hzero, if_neg htab, if_neg hreturn, if_neg hnewline, if_neg hbackslash,
    if_neg hquote]
  split
  · exact unescapeQuoted_cons hbackslash hquote rest
  · exact unescapeQuoted_escapeCode c rest

/-- **Quoted texts differ if the texts do.** -/
theorem quoted_injective {s t : String} (h : quoted s = quoted t) : s = t := by
  have hlist := congrArg String.toList h
  simp only [quoted, String.toList_ofList, List.cons_append, List.cons.injEq, true_and] at hlist
  exact String.toList_inj.mp (readsBack_escape.flatMap_inj hlist).1

/-- A quoted text is on one line. -/
theorem newline_not_mem_quoted (s : String) : '\n' ∉ (quoted s).toList := by
  have hcode : ∀ c, '\n' ∉ escapeCode c := by
    intro c hmem
    have hdigits : '\n' ∉ Nat.toDigits 16 c.toNat :=
      fun hmem => absurd ((hexValue_toDigits c.toNat).2 _ hmem) (by decide)
    simp [escapeCode, hdigits] at hmem
  have hescape : ∀ c, '\n' ∉ escape c := by
    intro c
    by_cases hnewline : c = '\n'
    · subst hnewline
      decide
    · have hself : '\n' ∉ [c] := fun hmem => hnewline (List.mem_singleton.mp hmem).symm
      unfold escape
      repeat' split
      all_goals first | decide | exact hself | exact hcode c
  simp [quoted, hescape]

end Text

/-! ### DOT texts -/

/-- Reads a character that stands for itself, or one behind a backslash. -/
def dotUnescape : List Char → Option (Char × List Char)
  | '\\' :: 'n' :: cs => some ('\n', cs)
  | '\\' :: c :: cs => some (c, cs)
  | '"' :: _ => none
  | c :: cs => some (c, cs)
  | [] => none

theorem readsBack_dotEscape : Text.ReadsBack dotEscape dotUnescape := by
  refine ⟨fun c rest => ?_, fun rest => rfl⟩
  by_cases hquote : c = '"'
  · subst hquote; rfl
  by_cases hbackslash : c = '\\'
  · subst hbackslash; rfl
  by_cases hnewline : c = '\n'
  · subst hnewline; rfl
  rw [dotEscape, if_neg hquote, if_neg hbackslash, if_neg hnewline, List.singleton_append]
  unfold dotUnescape
  split <;> simp_all

/-- A text in the quotes of a DOT text shows where it ends. -/
theorem dotQuoted_append_inj {s t u v : String} (h : dotQuoted s ++ u = dotQuoted t ++ v) :
    s = t ∧ u = v := by
  have hlist := congrArg String.toList h
  simp only [dotQuoted, String.toList_append, String.toList_ofList, List.cons_append,
    List.append_assoc, List.nil_append, List.cons.injEq, true_and] at hlist
  obtain ⟨hst, huv⟩ := readsBack_dotEscape.flatMap_inj hlist
  exact ⟨String.toList_inj.mp hst, String.toList_inj.mp huv⟩

theorem newline_not_mem_dotQuoted (s : String) : '\n' ∉ (dotQuoted s).toList := by
  have hescape : ∀ c, '\n' ∉ dotEscape c := by
    intro c
    unfold dotEscape
    repeat' split
    all_goals simp_all [eq_comm]
  simp [dotQuoted, hescape]

/-! ### Lines -/

theorem Text.toList_unlines_cons (l : String) (ls : List String) :
    (Text.unlines (l :: ls)).toList = l.toList ++ '\n' :: (Text.unlines ls).toList := by
  simp [Text.unlines]

/-- Lines show where they end if none of them holds a newline. -/
theorem Text.unlines_inj : ∀ {ls ms : List String}, (∀ l ∈ ls, '\n' ∉ l.toList) →
    (∀ m ∈ ms, '\n' ∉ m.toList) → Text.unlines ls = Text.unlines ms → ls = ms
  | [], [], _, _, _ => rfl
  | [], m :: ms, _, _, h => by
    have hlist := congrArg String.toList h
    rw [toList_unlines_cons] at hlist
    simp [Text.unlines] at hlist
  | l :: ls, [], _, _, h => by
    have hlist := congrArg String.toList h
    rw [toList_unlines_cons] at hlist
    simp [Text.unlines] at hlist
  | l :: ls, m :: ms, hl, hm, h => by
    obtain ⟨hl, hls⟩ := List.forall_mem_cons.mp hl
    obtain ⟨hm, hms⟩ := List.forall_mem_cons.mp hm
    have hlist := congrArg String.toList h
    rw [toList_unlines_cons, toList_unlines_cons] at hlist
    obtain ⟨hfirst, hrest⟩ :=
      run_append_inj (forall_ne_of_not_mem hl) (forall_ne_of_not_mem hm) rfl rfl hlist
    rw [String.toList_inj.mp hfirst, unlines_inj hls hms (String.toList_inj.mp (List.cons.inj hrest).2)]

/-! ### Brackets -/

/-- A text between an opening and a closing character, or nothing. -/
def Text.within (opening closing : Char) : Option String → String
  | none => ""
  | some text => String.singleton opening ++ text ++ String.singleton closing

theorem Text.within_injective {opening closing : Char} {d e : Option String}
    (h : within opening closing d = within opening closing e) : d = e := by
  cases d with
  | none =>
    cases e with
    | none => rfl
    | some e => simp [within] at h
  | some d =>
    cases e with
    | none => simp [within] at h
    | some e => rw [(String.append_right_inj _).mp ((String.append_left_inj _).mp h)]

theorem Text.head_within (opening closing : Char) (d : Option String) :
    (within opening closing d).toList.head?.any (fun c => decide (c ≠ opening)) = false := by
  cases d with
  | none => rfl
  | some d => simp [within]

theorem Text.append_within_inj {opening closing : Char} {v w : String} {d e : Option String}
    (hv : opening ∉ v.toList) (hw : opening ∉ w.toList)
    (h : v ++ within opening closing d = w ++ within opening closing e) : v = w ∧ d = e := by
  have hlist := congrArg String.toList h
  rw [String.toList_append, String.toList_append] at hlist
  obtain ⟨hvw, hde⟩ := run_append_inj (forall_ne_of_not_mem hv) (forall_ne_of_not_mem hw)
    (head_within opening closing d) (head_within opening closing e) hlist
  exact ⟨String.toList_inj.mp hvw, within_injective (String.toList_inj.mp hde)⟩

/-! ### Numbers -/

namespace Decimal

theorem isDigits_digits (n : Nat) : isDigits (digits n) = true := by
  have hne : digits n ≠ [] := Nat.toDigits_ne_nil
  have hall : ∀ c ∈ digits n, c.isDigit = true := fun c hc =>
    Nat.isDigit_of_mem_toDigits (by decide) (by decide) hc
  simp only [isDigits, Bool.and_eq_true, List.all_eq_true]
  exact ⟨by simpa using hne, hall⟩

theorem newline_not_mem_natText (n : Nat) : '\n' ∉ (natText n).toList := by
  rw [natText, String.toList_ofList]
  exact fun hmem => absurd (Nat.isDigit_of_mem_toDigits (by decide) (by decide) hmem) (by decide)

theorem natText_injective {m n : Nat} (h : natText m = natText n) : m = n := by
  have hdigits : digits m = digits n := String.ofList_inj.mp h
  rw [← value_digits m, hdigits, value_digits]

theorem natText_ne_minus (m n : Nat) : natText m ≠ "-" ++ natText n := by
  intro h
  have hlist : digits m = '-' :: digits n := by
    have := congrArg String.toList h
    simpa [natText, String.toList_append, String.toList_ofList] using this
  have hdigit : ('-' : Char).isDigit = true :=
    Nat.isDigit_of_mem_toDigits (by decide) (by decide) (hlist ▸ List.mem_cons_self ..)
  cases hdigit

theorem intText_injective {i j : Int} (h : intText i = intText j) : i = j := by
  unfold intText at h
  split at h <;> split at h
  · have hmagnitude := natText_injective ((String.append_right_inj _).mp h)
    omega
  · exact absurd h.symm (natText_ne_minus _ _)
  · exact absurd h (natText_ne_minus _ _)
  · have hmagnitude := natText_injective h
    omega

end Decimal

theorem vertexName_injective {m n : Nat} (h : vertexName m = vertexName n) : m = n :=
  Decimal.natText_injective ((String.append_right_inj _).mp h)

end SyntaxGraph
