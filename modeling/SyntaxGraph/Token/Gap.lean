/-
# Gaps

What may stand before, between and behind tokens: blanks, line comments and
closed block comments, in any number and order.

Key definitions: `gapPiece`, `gap`.
Key theorems: `gap_of_gapPiece_ne_nil`.
-/
import SyntaxGraph.Text.Blank

namespace SyntaxGraph
namespace Token

/-- The characters through the first newline, or all if there is none. -/
def throughNewline : List Char → List Char
  | [] => []
  | c :: cs => if c = '\n' then ['\n'] else c :: throughNewline cs

/-- The characters through the first `*/`. -/
def throughClosing : List Char → Option (List Char)
  | [] => none
  | '*' :: '/' :: _ => some ['*', '/']
  | c :: cs => (throughClosing cs).map (c :: ·)

/-- One blank, one line comment or one closed block comment at the start of a
text; empty if the text starts with none of them. -/
def gapPiece : List Char → List Char
  | '/' :: '/' :: cs => '/' :: '/' :: throughNewline cs
  | '/' :: '*' :: cs =>
    match throughClosing cs with
    | some body => '/' :: '*' :: body
    | none => []
  | c :: _ => if Text.isBlank c then [c] else []
  | [] => []

/-- The longest gap at the start of a text. -/
def gap (cs : List Char) : List Char :=
  if _ : gapPiece cs = [] then []
  else gapPiece cs ++ gap (cs.drop (gapPiece cs).length)
termination_by cs.length
decreasing_by
  rename_i h
  have hpos : 0 < (gapPiece cs).length := List.length_pos_iff.mpr h
  have hcs : 0 < cs.length := List.length_pos_iff.mpr fun h0 => h (by subst h0; rfl)
  simp only [List.length_drop]
  omega

theorem gap_of_gapPiece_eq_nil {cs : List Char} (h : gapPiece cs = []) : gap cs = [] := by
  rw [gap, dif_pos h]

/-- A gap is its first piece and the gap behind it. -/
theorem gap_of_gapPiece_ne_nil {cs : List Char} (h : gapPiece cs ≠ []) :
    gap cs = gapPiece cs ++ gap (cs.drop (gapPiece cs).length) := by
  rw [gap, dif_neg h]

end Token
end SyntaxGraph
