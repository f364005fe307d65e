/-
# What gaps are

A gap is a row of pieces: blanks, line comments through the next newline or to
the end of the text, and block comments through the first `*/` behind their
opening. `Token.gap` takes such a row from the front of a text, and all of it.

Key definitions: `Token.IsGapPiece`, `Token.IsGap`.
Key theorems: `Token.gap_spec`, `Token.IsGap.gap_append`.
-/
import SyntaxGraph.Token.Gap

namespace SyntaxGraph
namespace Token

/-- One piece of a gap in front of the text `rest`. -/
inductive IsGapPiece : List Char → List Char → Prop where
  | blank {c : Char} {rest : List Char} : Text.isBlank c = true → IsGapPiece [c] rest
  | line {body rest : List Char} : '\n' ∉ body → IsGapPiece ('/' :: '/' :: (body ++ ['\n'])) rest
  /-- A line comment that no newline ends. -/
  | lastLine {body : List Char} : '\n' ∉ body → IsGapPiece ('/' :: '/' :: body) []
  /-- The `*/` at the end is the first one behind the `/*`. -/
  | block {body rest : List Char} : ¬ ['*', '/'] <:+: body ++ ['*'] →
      IsGapPiece ('/' :: '*' :: (body ++ ['*', '/'])) rest

/-- Pieces of a gap, in front of the text `rest`. -/
inductive IsGap : List Char → List Char → Prop where
  | nil {rest : List Char} : IsGap [] rest
  | cons {piece others rest : List Char} : IsGapPiece piece (others ++ rest) → IsGap others rest →
      IsGap (piece ++ others) rest

theorem drop_of_eq_append {cs ds rest : List Char} (h : cs = ds ++ rest) : cs.drop ds.length = rest := by
  rw [h, List.drop_left]

/-- A line goes through its newline, or to the end of the text if it has none. -/
theorem throughNewline_spec : ∀ cs : List Char, ∃ rest, cs = throughNewline cs ++ rest ∧
    ((∃ body, throughNewline cs = body ++ ['\n'] ∧ '\n' ∉ body) ∨
      (rest = [] ∧ '\n' ∉ throughNewline cs))
  | [] => ⟨[], rfl, .inr ⟨rfl, by simp [throughNewline]⟩⟩
  | c :: cs => by
    by_cases hc : c = '\n'
    · subst hc
      exact ⟨cs, by simp [throughNewline], .inl ⟨[], by simp [throughNewline], by simp⟩⟩
    · obtain ⟨rest, hcs, hline⟩ := throughNewline_spec cs
      have hcons : throughNewline (c :: cs) = c :: throughNewline cs := by
        rw [throughNewline, if_neg hc]
      have hc' : '\n' ≠ c := fun h => hc h.symm
      refine ⟨rest, by rw [hcons, List.cons_append, ← hcs], ?_⟩
      rcases hline with ⟨body, hbody, hnot⟩ | ⟨hrest, hnot⟩
      · exact .inl ⟨c :: body, by rw [hcons, hbody]; rfl, by simp [hc', hnot]⟩
      · exact .inr ⟨hrest, by rw [hcons]; simp [hc', hnot]⟩

/-- A closing is taken with what is before it, and it is the first one. -/
theorem throughClosing_spec {cs taken : List Char} (h : throughClosing cs = some taken) :
    ∃ body rest, taken = body ++ ['*', '/'] ∧ cs = taken ++ rest ∧ ¬ ['*', '/'] <:+: body ++ ['*'] := by
  fun_induction throughClosing cs generalizing taken with
  | case1 => simp at h
  | case2 cs =>
    obtain rfl : taken = ['*', '/'] := by simpa using h.symm
    refine ⟨[], cs, rfl, rfl, fun hinfix => ?_⟩
    have := hinfix.length_le
    simp at this
  | case3 c cs hno ih =>
    obtain ⟨taken', htaken', rfl⟩ := Option.map_eq_some_iff.mp h
    obtain ⟨body, rest, rfl, hcs, hfirst⟩ := ih htaken'
    refine ⟨c :: body, rest, rfl, by rw [hcs]; rfl, fun hinfix => ?_⟩
    rcases List.infix_cons_iff.mp hinfix with hprefix | hinfix
    · -- the character and the next one would have been a closing
      obtain ⟨rfl, hnext⟩ := List.cons_prefix_cons.mp hprefix
      cases body with
      | nil => simp at hnext
      | cons d body =>
        obtain ⟨rfl, -⟩ := List.cons_prefix_cons.mp hnext
        exact hno _ rfl (by rw [hcs]; rfl)
    · exact hfirst hinfix

theorem gapPiece_spec {cs : List Char} (h : gapPiece cs ≠ []) :
    ∃ rest, cs = gapPiece cs ++ rest ∧ IsGapPiece (gapPiece cs) rest := by
  unfold gapPiece at h ⊢
  split
  · rename_i cs
    obtain ⟨rest, hcs, hline⟩ := throughNewline_spec cs
    refine ⟨rest, by simp [← hcs], ?_⟩
    rcases hline with ⟨body, hbody, hnot⟩ | ⟨rfl, hnot⟩
    · rw [hbody]
      exact .line hnot
    · exact .lastLine hnot
  · rename_i cs
    cases hclose : throughClosing cs with
    | none => simp [hclose] at h
    | some taken =>
      obtain ⟨body, rest, rfl, hcs, hfirst⟩ := throughClosing_spec hclose
      exact ⟨rest, by simp [hcs], .block hfirst⟩
  · rename_i c cs _ _
    by_cases hc : Text.isBlank c = true
    · simp only [hc, if_true]
      exact ⟨cs, rfl, .blank hc⟩
    · simp [hc] at h
  · simp at h

/-- What `gap` takes is a gap, and the text goes on behind it. -/
theorem gap_spec (cs : List Char) : ∃ rest, cs = gap cs ++ rest ∧ IsGap (gap cs) rest := by
  induction hn : cs.length using Nat.strongRecOn generalizing cs with
  | ind n ih =>
    by_cases hpiece : gapPiece cs = []
    · rw [gap_of_gapPiece_eq_nil hpiece]
      exact ⟨cs, rfl, .nil⟩
    · obtain ⟨others, hcs, hspec⟩ := gapPiece_spec hpiece
      have hpos : 0 < (gapPiece cs).length := List.length_pos_iff.mpr hpiece
      have hlen : cs.length = (gapPiece cs).length + others.length := by
        rw [← List.length_append, ← hcs]
      obtain ⟨rest, hothers, hgap⟩ := ih others.length (by omega) others rfl
      have hdrop : cs.drop (gapPiece cs).length = others := drop_of_eq_append hcs
      rw [gap_of_gapPiece_ne_nil hpiece, hdrop]
      rw [hothers] at hspec
      exact ⟨rest, by rw [List.append_assoc, ← hothers, ← hcs], .cons hspec hgap⟩

/-! ### Gaps are taken whole -/

theorem throughNewline_append {body : List Char} (h : '\n' ∉ body) (rest : List Char) :
    throughNewline (body ++ '\n' :: rest) = body ++ ['\n'] := by
  induction body with
  | nil => simp [throughNewline]
  | cons c body ih =>
    obtain ⟨hc, hbody⟩ : ¬ '\n' = c ∧ '\n' ∉ body := by simpa using h
    rw [List.cons_append, throughNewline, if_neg (Ne.symm hc), ih hbody]
    rfl

theorem throughNewline_eq_self {body : List Char} (h : '\n' ∉ body) : throughNewline body = body := by
  induction body with
  | nil => rfl
  | cons c body ih =>
    obtain ⟨hc, hbody⟩ : ¬ '\n' = c ∧ '\n' ∉ body := by simpa using h
    rw [throughNewline, if_neg (Ne.symm hc), ih hbody]

theorem throughClosing_append {body : List Char} (h : ¬ ['*', '/'] <:+: body ++ ['*'])
    (rest : List Char) :
    throughClosing (body ++ '*' :: '/' :: rest) = some (body ++ ['*', '/']) := by
  induction body with
  | nil => rfl
  | cons c body ih =>
    have hbody : ¬ ['*', '/'] <:+: body ++ ['*'] := fun hinfix => h (List.infix_cons hinfix)
    have hno : ∀ ds, c = '*' → body ++ '*' :: '/' :: rest = '/' :: ds → False := by
      rintro ds rfl hds
      cases body with
      | nil => simp at hds
      | cons d body =>
        obtain ⟨rfl, -⟩ := List.cons.inj hds
        exact h ⟨[], body ++ ['*'], rfl⟩
    rw [List.cons_append, throughClosing.eq_3 c _ hno, ih hbody]
    rfl

/-- A piece of a gap is taken whole. -/
theorem IsGapPiece.gapPiece_append {piece rest : List Char} (h : IsGapPiece piece rest) :
    gapPiece (piece ++ rest) = piece := by
  cases h with
  | @blank c _ hc =>
    have hslash : c ≠ '/' := by
      rintro rfl
      exact absurd hc (by decide)
    rw [List.cons_append, gapPiece.eq_3 c _ (fun _ h _ => hslash h) (fun _ h _ => hslash h), if_pos hc]
  | @line body _ hbody => simp [gapPiece, throughNewline_append hbody]
  | @lastLine body hbody => simp [gapPiece, throughNewline_eq_self hbody]
  | @block body _ hbody => simp [gapPiece, throughClosing_append hbody]

theorem IsGapPiece.ne_nil {piece rest : List Char} (h : IsGapPiece piece rest) : piece ≠ [] := by
  cases h <;> simp

/-- A gap is taken whole where no piece of a gap follows. -/
theorem IsGap.gap_append {g rest : List Char} (h : IsGap g rest) (hrest : gapPiece rest = []) :
    gap (g ++ rest) = g := by
  induction h with
  | nil => exact gap_of_gapPiece_eq_nil hrest
  | @cons piece others rest hpiece _ ih =>
    have hfirst := hpiece.gapPiece_append
    rw [List.append_assoc, gap_of_gapPiece_ne_nil (by rw [hfirst]; exact hpiece.ne_nil), hfirst,
      List.drop_left, ih hrest]

end Token
end SyntaxGraph
