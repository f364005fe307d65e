/-
# Texts line by line

A newline keeps apart what is in front of it and what is behind it. No token
goes over the end of a line, and a line comment ends there, so the tokens in
front of a newline are the same whatever is behind it. What is behind it is
scanned as a text of its own, some lines further down.

Key definitions: `Position.down`, `Item.down`.
Key theorems: `Cursor.items_down`, `Token.Reads.append_newline`,
`Cursor.items_append_newline`.
-/
import SyntaxGraph.Proofs.Token.LongestMatch
import SyntaxGraph.Proofs.Token.Tiling
import SyntaxGraph.Proofs.Token.Written

namespace SyntaxGraph

/-! ### Further down -/

/-- The position that is `n` lines further down. -/
def Position.down (n : Nat) (p : Position) : Position :=
  ⟨p.line + n, p.column⟩

def Token.down (n : Nat) (t : Token) : Token :=
  { t with position := t.position.down n }

def LexicalError.down (n : Nat) (e : LexicalError) : LexicalError :=
  { e with position := e.position.down n }

def Item.down (n : Nat) : Item → Item
  | .ok t => .ok (t.down n)
  | .error e => .error (e.down n)

def Cursor.down (n : Nat) (c : Cursor) : Cursor :=
  { c with position := c.position.down n }

theorem Position.advance_down (n : Nat) (p : Position) (c : Char) :
    (p.down n).advance c = (p.advance c).down n := by
  unfold advance
  split <;> simp [down, Nat.add_right_comm]

theorem Position.after_down (n : Nat) : ∀ (cs : List Char) (p : Position),
    (p.down n).after cs = (p.after cs).down n
  | [], _ => rfl
  | c :: cs, p => by rw [after_cons, after_cons, advance_down, after_down n cs]

/-- Behind a newline, a text goes on as from the start, some lines further down. -/
theorem Position.after_newline (cs : List Char) :
    start.after (cs ++ ['\n']) = start.down (1 + cs.count '\n') := by
  have hbehind : start.after (cs ++ ['\n']) = behind (cs ++ ['\n']) := after_behind [] _
  rw [hbehind]
  simp [behind, down, start, List.count_append, Nat.add_comm]

/-- Where a text starts makes no other difference to its next item. -/
theorem Cursor.next_down (n : Nat) (c : Cursor) :
    (c.down n).next = (c.next.1.down n, c.next.2.map (Cursor.down n)) := by
  unfold Cursor.next
  simp only [down, Position.after_down]
  cases Token.readLexeme (c.rest.drop (Token.gap c.rest).length) <;> rfl

theorem Cursor.items_down (n : Nat) (c : Cursor) : (c.down n).items = c.items.map (Item.down n) := by
  induction hlen : c.rest.length using Nat.strongRecOn generalizing c with
  | ind len ih =>
    rw [items_eq, items_eq, next_down, List.map_cons]
    cases hnext : c.next with
    | mk item behind =>
      cases behind with
      | none => rfl
      | some d => exact congrArg (item.down n :: ·) (ih _ (hlen ▸ next_rest_lt hnext) d rfl)

namespace Token

/-! ### No lexeme goes over the end of a line -/

theorem isPrefix_of_newline {l cs b : List Char} (h : l <+: cs ++ '\n' :: b) (hl : '\n' ∉ l) :
    l <+: cs := by
  rcases Nat.lt_or_ge cs.length l.length with hlt | hge
  · have hmem : '\n' ∈ l := by
      have hget := List.IsPrefix.getElem h (i := cs.length) hlt
      rw [List.getElem_append_right (Nat.le_refl _)] at hget
      simp only [Nat.sub_self, List.getElem_cons_zero] at hget
      exact hget ▸ List.getElem_mem hlt
    exact absurd hmem hl
  · exact List.prefix_of_prefix_length_le h (List.prefix_append cs _) hge

theorem newline_not_mem {l : List Char} (h : ∀ c ∈ l, Text.isBlank c = false) : '\n' ∉ l :=
  fun hmem => absurd (h _ hmem) (by decide)

theorem IsNumber.newline_not_mem {m : List Char} (h : IsNumber m) : '\n' ∉ m :=
  Token.newline_not_mem h.isBlank_eq_false

theorem IsLexeme.newline_not_mem {k : Kind} {l : List Char} (h : IsLexeme k l) : '\n' ∉ l := by
  have hword : ∀ {w}, IsWord w → '\n' ∉ w := fun hw =>
    Token.newline_not_mem fun c hc => isBlank_of_isWordChar (List.all_eq_true.mp hw.2 c hc)
  cases h with
  | name hw _ => exact hword hw
  | lower hk => exact hword (isWord_of_reserved hk).1
  | upper hk => exact hword (isWord_of_reserved hk).2
  | symbol hk => exact Token.newline_not_mem (isBlank_of_mem_spelling hk)
  | int hds => exact IsNumber.newline_not_mem (.inl hds)
  | float hm => exact IsNumber.newline_not_mem (.inr hm)
  | string hline _ => simp [hline]

theorem IsLongest.append_newline {P : List Char → Prop} {m cs : List Char} (h : IsLongest P m cs)
    (hP : ∀ l, P l → '\n' ∉ l) (b : List Char) : IsLongest P m (cs ++ '\n' :: b) :=
  ⟨h.isPrefix.trans (List.prefix_append ..), h.holds,
    fun l hl hPl => h.le l (isPrefix_of_newline hl (hP l hPl)) hPl⟩

theorem Plain.append_newline {cs : List Char} (h : Plain cs) (b : List Char) : Plain (cs ++ '\n' :: b) where
  number m hm hnumber := h.number m (isPrefix_of_newline hm hnumber.newline_not_mem) hnumber
  string hquote := h.string (isPrefix_of_newline hquote (by decide))
  comment hcomment := h.comment (isPrefix_of_newline hcomment (by decide))

theorem spoils_append_newline {rest : List Char} (h : rest.head?.any spoilsNumber = false)
    (b : List Char) : (rest ++ '\n' :: b).head?.any spoilsNumber = false := by
  cases rest with
  | nil => rfl
  | cons c rest => exact h

/-- A token in front of a newline is read whatever is behind the newline. -/
theorem Reads.append_newline {cs lexeme rest : List Char} {kind : Kind} {text : String}
    (h : Reads cs (.token kind text lexeme rest)) (b : List Char) :
    Reads (cs ++ '\n' :: b) (.token kind text lexeme (rest ++ '\n' :: b)) := by
  have hnumber : ∀ m, IsNumber m → '\n' ∉ m := fun _ => IsNumber.newline_not_mem
  cases h with
  | int hm hspoils hds hvalue =>
    have hm' := hm.append_newline hnumber b
    rw [List.append_assoc] at hm' ⊢
    exact .int hm' (spoils_append_newline hspoils b) hds hvalue
  | float hm hspoils hfloat =>
    have hm' := hm.append_newline hnumber b
    rw [List.append_assoc] at hm' ⊢
    exact .float hm' (spoils_append_newline hspoils b) hfloat
  | @string raw text rest hline htext =>
    have hcons : '"' :: (raw ++ '"' :: rest) ++ '\n' :: b = '"' :: (raw ++ '"' :: (rest ++ '\n' :: b)) := by
      simp
    rw [hcons]
    exact .string hline htext
  | lexeme hcs hkind hlongest =>
    have hcs' := hcs.append_newline b
    have hlongest' := hlongest.append_newline (fun l ⟨_, hl⟩ => hl.newline_not_mem) b
    rw [List.append_assoc] at hcs' hlongest' ⊢
    exact .lexeme hcs' hkind hlongest'

/-! ### Gaps at the end of a line -/

/-- In front of some text, a gap does not depend on what the text is. -/
theorem IsGap.of_ne_nil {g rest : List Char} (h : IsGap g rest) (hrest : rest ≠ []) (rest' : List Char) :
    IsGap g rest' := by
  induction h with
  | nil => exact .nil
  | @cons piece others rest hpiece _ ih =>
    refine .cons ?_ (ih hrest)
    generalize hall : others ++ rest = all at hpiece
    cases hpiece with
    | blank hc => exact .blank hc
    | line hbody => exact .line hbody
    | lastLine hbody => exact absurd (List.append_eq_nil_iff.mp hall).2 hrest
    | block hbody => exact .block hbody

theorem IsGap.concat_newline {g r : List Char} (h : IsGap g r) (hr : r = []) (rest : List Char) :
    IsGap (g ++ ['\n']) rest := by
  have hnewline : IsGap ['\n'] rest := IsGap.cons (.blank (by decide)) .nil
  induction h with
  | nil => exact hnewline
  | @cons piece others r hpiece _ ih =>
    subst hr
    rw [List.append_nil] at hpiece
    rw [List.append_assoc]
    cases hpiece with
    | blank hc => exact .cons (.blank hc) (ih rfl)
    | line hbody => exact .cons (.line hbody) (ih rfl)
    | block hbody => exact .cons (.block hbody) (ih rfl)
    | @lastLine body hbody =>
      have hline : IsGap ('/' :: '/' :: (body ++ ['\n']) ++ []) rest := .cons (.line hbody) .nil
      simpa using hline

theorem IsGap.gap_eq {g rest : List Char} (h : IsGap g rest) : gap (g ++ rest) = g ++ gap rest := by
  induction h with
  | nil => rfl
  | @cons piece others rest hpiece _ ih =>
    have hfirst := hpiece.gapPiece_append
    rw [List.append_assoc, gap_of_gapPiece_ne_nil (by rw [hfirst]; exact hpiece.ne_nil), hfirst,
      List.drop_left, ih, List.append_assoc]

theorem gapPiece_eq_nil_of_gap {cs rest : List Char} (h : cs = gap cs ++ rest)
    (hgap : IsGap (gap cs) rest) : gapPiece rest = [] := by
  have hall := hgap.gap_eq
  rw [← h] at hall
  have hnil : gap rest = [] := List.self_eq_append_right.mp hall
  refine Decidable.byContradiction fun hne => hne ?_
  rw [gap_of_gapPiece_ne_nil hne] at hnil
  exact (List.append_eq_nil_iff.mp hnil).1

/-- Where neither a gap nor an unclosed comment starts, none does with more lines. -/
theorem gapPiece_append_newline {r : List Char} (h : gapPiece r = []) (hr : r ≠ [])
    (hcomment : ¬ ['/', '*'] <+: r) (b : List Char) : gapPiece (r ++ '\n' :: b) = [] := by
  obtain ⟨c, cs, rfl⟩ := List.exists_cons_of_ne_nil hr
  by_cases hslash : c = '/'
  · subst hslash
    cases cs with
    | nil => exact gapPiece_slash rfl
    | cons d cs =>
      have hline : d ≠ '/' := by
        rintro rfl
        simp [gapPiece] at h
      have hblock : d ≠ '*' := by
        rintro rfl
        exact hcomment (by simp)
      exact gapPiece.eq_3 '/' _ (fun _ _ hd => hline (List.cons.inj hd).1)
        (fun _ _ hd => hblock (List.cons.inj hd).1)
  · rw [gapPiece.eq_3 c cs (fun _ hc _ => hslash hc) (fun _ hc _ => hslash hc)] at h
    have hblank : Text.isBlank c = false := by simpa using h
    exact gapPiece_cons hslash hblank _

/-- In front of a token, the same gap is taken with more lines behind the text. -/
theorem gap_append_newline {cs r lexeme rest : List Char} {kind : Kind} {text : String}
    (hcs : cs = gap cs ++ r) (hgap : IsGap (gap cs) r)
    (hread : readLexeme r = .token kind text lexeme rest) (b : List Char) :
    gap (cs ++ '\n' :: b) = gap cs := by
  have hr : r ≠ [] := by
    rintro rfl
    cases hread
  have hcomment : ¬ ['/', '*'] <+: r := by
    rintro ⟨ds, rfl⟩
    cases hread
  have hcut : cs ++ '\n' :: b = gap cs ++ (r ++ '\n' :: b) :=
    (congrArg (· ++ '\n' :: b) hcs).trans (List.append_assoc ..)
  rw [hcut]
  exact (hgap.of_ne_nil hr _).gap_append
    (gapPiece_append_newline (gapPiece_eq_nil_of_gap hcs hgap) hr hcomment b)

end Token

/-! ### Behind a newline -/

theorem Cursor.items_skip {p : Position} {g r : List Char} (h : Token.IsGap g r) :
    items ⟨p, g ++ r⟩ = items ⟨p.after g, r⟩ := by
  have hdrop : (g ++ r).drop (g ++ Token.gap r).length = r.drop (Token.gap r).length := by
    rw [List.length_append, List.drop_append]
    simp
  have hnext : next ⟨p, g ++ r⟩ = next ⟨p.after g, r⟩ := by
    unfold Cursor.next
    simp only [h.gap_eq, hdrop, Position.after_append]
  rw [items_eq, hnext, ← items_eq]

theorem Cursor.items_of_fault {c : Cursor} {gap r before : List Char} {cause : LexicalError.Cause}
    (hc : c.rest = gap ++ r) (hgap : Token.gap c.rest = gap)
    (hread : Token.readLexeme r = .fault before cause) :
    c.items = [.error ⟨cause, (c.position.after gap).after before⟩] := by
  subst hgap
  rw [Cursor.items_eq, Cursor.next_of_reading hc hread]
  rfl

/-- **Scanning goes on behind a newline.** Where nothing is wrong in front of it,
the tokens there come first, and then the items of what is behind it. -/
theorem Cursor.items_append_newline (b : List Char) (c : Cursor) (hc : ∀ e, .error e ∉ c.items) :
    ∃ ts : List Token, (∀ t ∈ ts, t.kind ≠ .eof) ∧
      c.items = ts.map .ok ++ [.ok (Token.endOfInput (c.position.after c.rest))] ∧
      items ⟨c.position, c.rest ++ '\n' :: b⟩ =
        ts.map .ok ++ items ⟨c.position.after (c.rest ++ ['\n']), b⟩ := by
  induction hlen : c.rest.length using Nat.strongRecOn generalizing c with
  | ind len ih =>
    obtain ⟨r, hrest, hgap⟩ := Token.gap_spec c.rest
    cases hread : Token.readLexeme r with
    | fault before cause =>
      rw [items_of_fault hrest rfl hread] at hc
      exact absurd (List.mem_singleton_self _) (hc _)
    | nothing =>
      obtain rfl := Token.eq_nil_of_readLexeme hread
      rw [List.append_nil] at hrest
      rw [← hrest] at hgap
      refine ⟨[], nofun, items_of_isGap hgap, ?_⟩
      have hline : c.rest ++ '\n' :: b = (c.rest ++ ['\n']) ++ b := by simp
      rw [hline]
      exact items_skip (hgap.concat_newline rfl b)
    | token kind text lexeme rest =>
      obtain ⟨rfl, hkind, -⟩ := Token.readLexeme_spec hread
      have hitems := items_of_reading hrest rfl hread
      let d : Cursor := ⟨(c.position.after (Token.gap c.rest)).after lexeme, rest⟩
      have hd : ∀ e, .error e ∉ d.items := fun e he => hc e (hitems ▸ List.mem_cons_of_mem _ he)
      have hlt : d.rest.length < c.rest.length := by
        have := Token.readLexeme_rest_lt hread
        rw [hrest, List.length_append]
        exact Nat.lt_of_lt_of_le this (Nat.le_add_left ..)
      obtain ⟨ts, hts, hdown, hbehind⟩ := ih d.rest.length (hlen ▸ hlt) d hd rfl
      -- the same gap and the same lexeme are taken with the newline behind the rest
      have hcut : c.rest ++ '\n' :: b = Token.gap c.rest ++ (lexeme ++ (rest ++ '\n' :: b)) :=
        (congrArg (· ++ '\n' :: b) hrest).trans (by simp)
      have hread' := (Token.reads_iff.mpr hread).append_newline b
      rw [List.append_assoc] at hread'
      have hitems' := items_of_reading (c := ⟨c.position, c.rest ++ '\n' :: b⟩) hcut
        (Token.gap_append_newline hrest hgap hread b) hread'.readLexeme_eq
      have hplace : ∀ cs, d.position.after (d.rest ++ cs) = c.position.after (c.rest ++ cs) := fun cs => by
        rw [hrest]
        simp only [d, ← Position.after_append, List.append_assoc]
      have hend := hplace []
      simp only [List.append_nil] at hend
      refine ⟨⟨kind, text, c.position.after (Token.gap c.rest)⟩ :: ts, ?_, ?_, ?_⟩
      · exact List.forall_mem_cons.mpr ⟨hkind, hts⟩
      · rw [hitems, ← hend]
        exact congrArg _ hdown
      · rw [hitems', ← hplace]
        exact congrArg _ hbehind

end SyntaxGraph
