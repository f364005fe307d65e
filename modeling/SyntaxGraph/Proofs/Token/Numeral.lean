/-
# The longest number

A number is digits; or digits with a point and perhaps digits behind it; or a
point with digits behind it; or digits with an exponent. The forms with a point
may have an exponent too. What `numeralOf` takes from the front of a text is a
number, and no number at the front of the text is longer.

Key definitions: `Token.IsExponent`, `Token.IsFloat`, `Token.IsNumber`, `Token.IsLongest`.
Key theorems: `Token.isLongest_numeralOf`, `Token.readNumeral_eq`.
-/
import SyntaxGraph.Proofs.Token.Lexeme

namespace SyntaxGraph
namespace Token

/-! ### The forms of numbers -/

/-- A letter `e`, a sign or none, and digits. -/
inductive IsExponent : List Char → Prop where
  | mk {e : Char} {sign ds : List Char} : e = 'e' ∨ e = 'E' →
      sign = [] ∨ sign = ['+'] ∨ sign = ['-'] → Decimal.isDigits ds = true →
      IsExponent (e :: (sign ++ ds))

/-- Digits with a point, an exponent or both. -/
inductive IsFloat : List Char → Prop where
  /-- Digits stand in front of the point. -/
  | point {ds fs x : List Char} : Decimal.isDigits ds = true → (∀ c ∈ fs, c.isDigit = true) →
      x = [] ∨ IsExponent x → IsFloat (ds ++ '.' :: (fs ++ x))
  /-- Digits stand behind the point only. -/
  | fraction {fs x : List Char} : Decimal.isDigits fs = true → x = [] ∨ IsExponent x →
      IsFloat ('.' :: (fs ++ x))
  | exponent {ds x : List Char} : Decimal.isDigits ds = true → IsExponent x → IsFloat (ds ++ x)

/-- An integer or a float. -/
def IsNumber (m : List Char) : Prop :=
  Decimal.isDigits m = true ∨ IsFloat m

/-- Of the words of a kind at the front of a text, the longest one. -/
structure IsLongest (P : List Char → Prop) (m cs : List Char) : Prop where
  isPrefix : m <+: cs
  holds : P m
  le : ∀ n, n <+: cs → P n → n.length ≤ m.length

theorem IsLongest.unique {P : List Char → Prop} {m n cs : List Char} (hm : IsLongest P m cs)
    (hn : IsLongest P n cs) : m = n := by
  have hmn : m.length ≤ n.length := hn.le m hm.isPrefix hm.holds
  have hnm : n.length ≤ m.length := hm.le n hn.isPrefix hn.holds
  have hprefix : m <+: n := List.prefix_of_prefix_length_le hm.isPrefix hn.isPrefix hmn
  exact hprefix.eq_of_length (by omega)

theorem isDigits_iff {ds : List Char} :
    Decimal.isDigits ds = true ↔ ds ≠ [] ∧ ∀ c ∈ ds, c.isDigit = true := by
  simp [Decimal.isDigits]

theorem IsExponent.ne_nil {x : List Char} (h : IsExponent x) : x ≠ [] := by
  cases h
  simp

theorem IsExponent.head {x : List Char} (h : IsExponent x) : x.head?.any Char.isDigit = false := by
  cases h with
  | mk he => rcases he with rfl | rfl <;> rfl

theorem IsFloat.isDigits_eq_false {m : List Char} (h : IsFloat m) : Decimal.isDigits m = false := by
  have hno : ∀ ds es : List Char, ∀ c : Char, c.isDigit = false →
      Decimal.isDigits (ds ++ c :: es) = false := by
    intro ds es c hc
    simp [Decimal.isDigits, hc]
  cases h with
  | point => exact hno _ _ '.' (by decide)
  | fraction => exact hno [] _ '.' (by decide)
  | exponent _ hx =>
    obtain ⟨he, -, -⟩ := hx
    exact hno _ _ _ (by rcases he with rfl | rfl <;> decide)

/-! ### Runs of a kind of characters -/

theorem isPrefix_takeWhile {p : Char → Bool} {ds cs : List Char} (hds : ∀ c ∈ ds, p c = true)
    (h : ds <+: cs) : ds <+: cs.takeWhile p := by
  obtain ⟨rest, rfl⟩ := h
  rw [List.takeWhile_append_of_pos hds]
  exact List.prefix_append ..

theorem takeWhile_eq_of_append {p : Char → Bool} {ds x cs : List Char} (hds : ∀ c ∈ ds, p c = true)
    (hne : x ≠ []) (hx : x.head?.any p = false) (h : ds ++ x <+: cs) :
    cs.takeWhile p = ds ∧ x <+: cs.drop ds.length := by
  obtain ⟨rest, rfl⟩ := h
  obtain ⟨c, x, rfl⟩ := List.exists_cons_of_ne_nil hne
  have hc : ¬ p c = true := by simpa using hx
  rw [List.append_assoc, List.takeWhile_append_of_pos hds, List.drop_left, List.cons_append,
    List.takeWhile_cons_of_neg hc, List.append_nil]
  exact ⟨rfl, List.cons_prefix_cons.mpr ⟨rfl, List.prefix_append ..⟩⟩

theorem takeWhile_all {p : Char → Bool} {cs : List Char} : ∀ c ∈ cs.takeWhile p, p c = true :=
  List.all_eq_true.mp List.all_takeWhile

/-! ### The longest exponent -/

theorem exponentOf_eq (e : Char) (cs : List Char) :
    ∃ sign, (sign = [] ∨ sign = ['+'] ∨ sign = ['-']) ∧
      exponentOf (e :: cs) =
        if e = 'e' || e = 'E' then
          if ((cs.drop sign.length).takeWhile Char.isDigit).isEmpty then []
          else e :: (sign ++ (cs.drop sign.length).takeWhile Char.isDigit)
        else [] := by
  cases cs with
  | nil => exact ⟨[], .inl rfl, rfl⟩
  | cons c cs =>
    by_cases hplus : c = '+'
    · subst hplus
      exact ⟨['+'], .inr (.inl rfl), rfl⟩
    by_cases hminus : c = '-'
    · subst hminus
      exact ⟨['-'], .inr (.inr rfl), rfl⟩
    · exact ⟨[], .inl rfl, by simp only [exponentOf, hplus, hminus]; rfl⟩

/-- What `exponentOf` takes is an exponent, if it takes something. -/
theorem exponentOf_cases (cs : List Char) : exponentOf cs = [] ∨ IsExponent (exponentOf cs) := by
  cases cs with
  | nil => exact .inl rfl
  | cons e cs =>
    obtain ⟨sign, hsign, heq⟩ := exponentOf_eq e cs
    rw [heq]
    split
    · rename_i he
      split
      · exact .inl rfl
      · rename_i hds
        have he' : e = 'e' ∨ e = 'E' := by simpa using he
        exact .inr (.mk he' hsign (isDigits_iff.mpr ⟨by simpa using hds, takeWhile_all⟩))
    · exact .inl rfl

/-- With the sign that stands there, `exponentOf` takes the letter, the sign and
the digits. -/
theorem exponentOf_cons {e : Char} {sign cs : List Char} (he : e = 'e' ∨ e = 'E')
    (hsign : sign = [] ∨ sign = ['+'] ∨ sign = ['-'])
    (hcs : Decimal.isDigits (cs.takeWhile Char.isDigit) = true) :
    exponentOf (e :: (sign ++ cs)) = e :: (sign ++ cs.takeWhile Char.isDigit) := by
  have he' : (e = 'e' || e = 'E') = true := by simpa using he
  have hne : (cs.takeWhile Char.isDigit).isEmpty = false := by
    simpa using (isDigits_iff.mp hcs).1
  rcases hsign with rfl | rfl | rfl
  · -- a digit is no sign
    cases cs with
    | nil => cases hcs
    | cons c cs =>
      have hc : c.isDigit = true := by
        cases hc : c.isDigit with
        | true => rfl
        | false => simp [Decimal.isDigits, hc] at hcs
      have hplus : c ≠ '+' := by rintro rfl; cases hc
      have hminus : c ≠ '-' := by rintro rfl; cases hc
      simpa [exponentOf, he', hplus, hminus] using hne
  · simpa [exponentOf, he'] using hne
  · simpa [exponentOf, he'] using hne

theorem length_le_exponentOf {x cs : List Char} (hx : IsExponent x) (h : x <+: cs) :
    x.length ≤ (exponentOf cs).length := by
  obtain ⟨he, hsign, hds⟩ := hx
  rename_i e sign ds
  obtain ⟨rest, rfl⟩ := h
  obtain ⟨hne, hall⟩ := isDigits_iff.mp hds
  have hrun : ds <+: (ds ++ rest).takeWhile Char.isDigit :=
    isPrefix_takeWhile hall (List.prefix_append ..)
  have htaken : Decimal.isDigits ((ds ++ rest).takeWhile Char.isDigit) = true :=
    isDigits_iff.mpr ⟨fun h0 => hne (List.prefix_nil.mp (h0 ▸ hrun)), takeWhile_all⟩
  have hcut : e :: (sign ++ ds) ++ rest = e :: (sign ++ (ds ++ rest)) := by simp
  have hlen := hrun.length_le
  rw [hcut, exponentOf_cons he hsign htaken]
  simp only [List.length_cons, List.length_append]
  omega

/-! ### The longest number -/

/-- The point, the digits behind it and the exponent. -/
def tailOf (cs : List Char) : List Char :=
  fractionOf cs ++ exponentOf (cs.drop (fractionOf cs).length)

theorem numeralOf_eq (cs : List Char) :
    numeralOf cs =
      (cs.takeWhile Char.isDigit, tailOf (cs.drop (cs.takeWhile Char.isDigit).length)) := by
  simp only [numeralOf, tailOf, List.drop_drop]

theorem tailOf_point (cs : List Char) :
    ∃ x, tailOf ('.' :: cs) = '.' :: (cs.takeWhile Char.isDigit ++ x) ∧ (x = [] ∨ IsExponent x) :=
  ⟨_, rfl, exponentOf_cases _⟩

theorem tailOf_of_ne {cs : List Char} (h : ∀ ds, cs ≠ '.' :: ds) : tailOf cs = exponentOf cs := by
  have hfraction : fractionOf cs = [] := by
    unfold fractionOf
    split
    · exact absurd rfl (h _)
    · rfl
  rw [tailOf, hfraction]
  rfl

theorem isFloat_tailOf {ds : List Char} (hds : Decimal.isDigits ds = true) {cs : List Char}
    (h : tailOf cs ≠ []) : IsFloat (ds ++ tailOf cs) := by
  by_cases hpoint : ∃ cs', cs = '.' :: cs'
  · obtain ⟨cs, rfl⟩ := hpoint
    obtain ⟨x, htail, hx⟩ := tailOf_point cs
    rw [htail]
    exact .point hds takeWhile_all hx
  · have htail : tailOf cs = exponentOf cs := tailOf_of_ne fun ds h => hpoint ⟨ds, h⟩
    rw [htail] at h ⊢
    exact .exponent hds ((exponentOf_cases cs).resolve_left h)

/-- A number at the front of a text makes it start as one. -/
theorem IsNumber.exists_cons {m : List Char} (hm : IsNumber m) {cs : List Char} (h : m <+: cs) :
    ∃ d ds, cs = d :: ds ∧ startsNumeral d ds = true := by
  have hdigits : ∀ ds es : List Char, Decimal.isDigits ds = true → ds ++ es <+: cs →
      ∃ d ds, cs = d :: ds ∧ startsNumeral d ds = true := by
    intro ds es hds hcs
    obtain ⟨rest, rfl⟩ := hcs
    obtain ⟨hne, hall⟩ := isDigits_iff.mp hds
    obtain ⟨d, ds, rfl⟩ := List.exists_cons_of_ne_nil hne
    have hd : d.isDigit = true := hall d (List.mem_cons_self ..)
    exact ⟨d, ds ++ es ++ rest, rfl, by simp [startsNumeral, hd]⟩
  rcases hm with hm | hm
  · exact hdigits m [] hm (by rwa [List.append_nil])
  · cases hm with
    | point hds => exact hdigits _ _ hds h
    | @fraction fs x hfs =>
      obtain ⟨rest, rfl⟩ := h
      obtain ⟨hne, hall⟩ := isDigits_iff.mp hfs
      obtain ⟨d, fs, rfl⟩ := List.exists_cons_of_ne_nil hne
      have hd : d.isDigit = true := hall d (List.mem_cons_self ..)
      exact ⟨'.', d :: fs ++ x ++ rest, rfl, by simp [startsNumeral, hd]⟩
    | exponent hds => exact hdigits _ _ hds h

/-- The number at the front of a text that starts as one: with a tail it is a
float, without it is digits. -/
theorem numeralOf_spec {c : Char} {cs : List Char} (h : startsNumeral c cs = true) :
    ((numeralOf (c :: cs)).2 = [] ∧ Decimal.isDigits (numeralOf (c :: cs)).1 = true) ∨
      ((numeralOf (c :: cs)).2 ≠ [] ∧
        IsFloat ((numeralOf (c :: cs)).1 ++ (numeralOf (c :: cs)).2)) := by
  rw [numeralOf_eq]
  by_cases hc : c.isDigit = true
  · have hds : Decimal.isDigits ((c :: cs).takeWhile Char.isDigit) = true :=
      isDigits_iff.mpr ⟨by simp [hc], takeWhile_all⟩
    by_cases htail : tailOf ((c :: cs).drop ((c :: cs).takeWhile Char.isDigit).length) = []
    · exact .inl ⟨htail, hds⟩
    · exact .inr ⟨htail, isFloat_tailOf hds htail⟩
  · obtain ⟨rfl, hhead⟩ : c = '.' ∧ cs.head?.any Char.isDigit = true := by
      simpa [startsNumeral, hc] using h
    obtain ⟨x, htail, hx⟩ := tailOf_point cs
    have hfs : Decimal.isDigits (cs.takeWhile Char.isDigit) = true := by
      cases cs with
      | nil => cases hhead
      | cons d cs =>
        have hd : d.isDigit = true := by simpa using hhead
        exact isDigits_iff.mpr ⟨by simp [hd], takeWhile_all⟩
    rw [List.takeWhile_cons_of_neg hc, List.length_nil, List.drop_zero, htail]
    exact .inr ⟨by simp, .fraction hfs hx⟩

/-- Digits with a point or an exponent at the front of a text are not longer
than the digits with their tail. -/
theorem length_le_numeralOf {ds y cs : List Char} (hds : ∀ c ∈ ds, c.isDigit = true) (hne : y ≠ [])
    (hy : y.head?.any Char.isDigit = false) (h : ds ++ y <+: cs)
    (htail : ∀ rest, y <+: rest → y.length ≤ (tailOf rest).length) :
    (ds ++ y).length ≤ ((numeralOf cs).1 ++ (numeralOf cs).2).length := by
  obtain ⟨hrun, hrest⟩ := takeWhile_eq_of_append hds hne hy h
  have hlen := htail _ hrest
  rw [numeralOf_eq, hrun]
  simp only [List.length_append]
  omega

/-- Point, digits and an exponent or none are not longer than the tail. -/
theorem length_le_tailOf_point {fs x rest : List Char} (hfs : ∀ c ∈ fs, c.isDigit = true)
    (hx : x = [] ∨ IsExponent x) (h : '.' :: (fs ++ x) <+: rest) :
    ('.' :: (fs ++ x)).length ≤ (tailOf rest).length := by
  cases rest with
  | nil => simp at h
  | cons c rest =>
    obtain ⟨rfl, hrest⟩ := List.cons_prefix_cons.mp h
    have hfraction : fractionOf ('.' :: rest) = '.' :: rest.takeWhile Char.isDigit := rfl
    rw [tailOf, hfraction]
    simp only [List.length_cons, List.length_append, List.drop_succ_cons]
    rcases hx with rfl | hx
    · have hprefix : fs <+: rest := by rwa [List.append_nil] at hrest
      have hlength := (isPrefix_takeWhile hfs hprefix).length_le
      simp only [List.length_nil]
      omega
    · obtain ⟨hrun, hexponent⟩ := takeWhile_eq_of_append hfs hx.ne_nil hx.head hrest
      have hlength := length_le_exponentOf hx hexponent
      rw [hrun]
      omega

theorem length_le_tailOf_exponent {x rest : List Char} (hx : IsExponent x) (h : x <+: rest) :
    x.length ≤ (tailOf rest).length := by
  have hno : ∀ ds, rest ≠ '.' :: ds := by
    rintro ds rfl
    obtain ⟨he, -, -⟩ := hx
    have := (List.cons_prefix_cons.mp h).1
    rcases he with rfl | rfl <;> cases this
  rw [tailOf_of_ne hno]
  exact length_le_exponentOf hx h

/-- **The longest number** at the front of a text that starts as one. -/
theorem isLongest_numeralOf {c : Char} {cs : List Char} (h : startsNumeral c cs = true) :
    IsLongest IsNumber ((numeralOf (c :: cs)).1 ++ (numeralOf (c :: cs)).2) (c :: cs) := by
  refine ⟨numeralOf_isPrefix _, ?_, fun m hm hnumber => ?_⟩
  · rcases numeralOf_spec h with ⟨htail, hds⟩ | ⟨-, hfloat⟩
    · rw [htail, List.append_nil]
      exact .inl hds
    · exact .inr hfloat
  · rcases hnumber with hds | hfloat
    · have := (isPrefix_takeWhile (isDigits_iff.mp hds).2 hm).length_le
      rw [numeralOf_eq]
      simp only [List.length_append]
      omega
    · cases hfloat with
      | point hds hfs hx =>
        exact length_le_numeralOf (isDigits_iff.mp hds).2 (by simp) (by rfl) hm
          fun rest hrest => length_le_tailOf_point hfs hx hrest
      | fraction hfs hx =>
        exact @length_le_numeralOf [] _ _ nofun (by simp) (by rfl) hm
          fun rest hrest => length_le_tailOf_point (isDigits_iff.mp hfs).2 hx hrest
      | exponent hds hx =>
        exact length_le_numeralOf (isDigits_iff.mp hds).2 hx.ne_nil hx.head hm
          fun rest hrest => length_le_tailOf_exponent hx hrest

/-! ### Reading numbers -/

theorem readSign_cons {c : Char} (hplus : c ≠ '+') (hminus : c ≠ '-') (cs : List Char) :
    Decimal.readSign (c :: cs) = (false, c :: cs) := by
  unfold Decimal.readSign
  split <;> simp_all

theorem readSign_of_isDigits {ds : List Char} (hds : Decimal.isDigits ds = true) :
    Decimal.readSign ds = (false, ds) := by
  obtain ⟨hne, hall⟩ := isDigits_iff.mp hds
  obtain ⟨d, ds, rfl⟩ := List.exists_cons_of_ne_nil hne
  have hd : d.isDigit = true := hall d (List.mem_cons_self ..)
  exact readSign_cons (by rintro rfl; cases hd) (by rintro rfl; cases hd) ds

/-- Digits stand for their value, if it fits a word. -/
theorem readInt_eq {ds : List Char} (hds : Decimal.isDigits ds = true) :
    Decimal.readInt ds = if Decimal.value ds < 2 ^ 63 then some (Decimal.value ds : Int) else none := by
  have hword : Decimal.inWord (Decimal.value ds) = true ↔ Decimal.value ds < 2 ^ 63 := by
    simp only [Decimal.inWord, Bool.and_eq_true, decide_eq_true_eq]
    omega
  simp [Decimal.readInt, readSign_of_isDigits hds, hds, hword]

/-- Reading a number takes the longest one, unless what follows spoils it or it
is an integer that does not fit a word. -/
theorem readNumeral_eq {m rest : List Char} (h : IsLongest IsNumber m (m ++ rest)) :
    readNumeral (m ++ rest) =
      if rest.head?.any spoilsNumber then
        .fault [] (.invalidNumber (String.ofList
          (m ++ rest.takeWhile fun c => isWordChar c || c = '.')))
      else if Decimal.isDigits m = false then .token .floatLiteral (String.ofList m) m rest
      else if Decimal.value m < 2 ^ 63 then .token .intLiteral (String.ofList m) m rest
      else .fault [] (.invalidNumber (String.ofList m)) := by
  obtain ⟨c, cs, hcs, hstart⟩ := h.holds.exists_cons h.isPrefix
  have hm : (numeralOf (m ++ rest)).1 ++ (numeralOf (m ++ rest)).2 = m := by
    have hlongest := isLongest_numeralOf hstart
    rw [← hcs] at hlongest
    exact hlongest.unique h
  have hform := numeralOf_spec hstart
  rw [← hcs] at hform
  simp only [readNumeral, hm, List.drop_left]
  split
  · rfl
  · rcases hform with ⟨htail, hds⟩ | ⟨htail, hfloat⟩
    · have hwhole : (numeralOf (m ++ rest)).1 = m := by rwa [htail, List.append_nil] at hm
      rw [hwhole] at hds
      by_cases hvalue : Decimal.value m < 2 ^ 63
      · simp [htail, hds, readInt_eq hds, hvalue]
      · simp [htail, hds, readInt_eq hds, hvalue]
    · rw [hm] at hfloat
      simp [htail, hfloat.isDigits_eq_false]

end Token
end SyntaxGraph
