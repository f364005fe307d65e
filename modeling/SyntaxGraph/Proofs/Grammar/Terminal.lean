/-
# What the grammar sees of a token

A token counts for the grammar by its kind, and by its text only where the
kind leaves the text open: names, numbers and strings. A terminal is just
that. Every terminal is the terminal of some token.

Key definitions: `Terminal`, `Token.terminal`, `Arith.kind`, `Comparison.kind`.
Key theorems: `Terminal.terminal_token`, `comparisonOf_eq_some`.
-/
import SyntaxGraph.Grammar.Program

namespace SyntaxGraph

/-- Tokens of this kind differ in their texts. -/
def Token.Kind.isOpen : Token.Kind → Bool
  | ident | intLiteral | floatLiteral | stringLiteral => true
  | _ => false

/-- A token without its place, and without the spelling of a word or a symbol. -/
structure Terminal where
  kind : Token.Kind
  text : String
  text_eq : kind.isOpen = false → text = ""
  deriving DecidableEq

namespace Terminal

@[ext] theorem ext {x y : Terminal} (hk : x.kind = y.kind) (ht : x.text = y.text) : x = y := by
  cases x
  cases y
  simp_all

/-- A reserved word or a symbol. -/
def word (kind : Token.Kind) : Terminal :=
  ⟨kind, "", fun _ => rfl⟩

/-- A name. -/
def ident (name : String) : Terminal :=
  ⟨.ident, name, nofun⟩

/-- An integer literal. -/
def int (text : String) : Terminal :=
  ⟨.intLiteral, text, nofun⟩

/-- A float literal. -/
def float (text : String) : Terminal :=
  ⟨.floatLiteral, text, nofun⟩

/-- A string literal with its contents. -/
def string (text : String) : Terminal :=
  ⟨.stringLiteral, text, nofun⟩

@[simp] theorem kind_word (k : Token.Kind) : (word k).kind = k := rfl
@[simp] theorem kind_ident (x : String) : (ident x).kind = .ident := rfl
@[simp] theorem kind_int (x : String) : (int x).kind = .intLiteral := rfl
@[simp] theorem kind_float (x : String) : (float x).kind = .floatLiteral := rfl
@[simp] theorem kind_string (x : String) : (string x).kind = .stringLiteral := rfl

/-- A token that shows as this terminal. -/
def token (x : Terminal) : Token :=
  ⟨x.kind, x.text, .start⟩

end Terminal

namespace Token

/-- The terminal that a token shows as. -/
def terminal (t : Token) : Terminal :=
  ⟨t.kind, if t.kind.isOpen then t.text else "", by simp +contextual⟩

@[simp] theorem kind_terminal (t : Token) : t.terminal.kind = t.kind := rfl

theorem terminal_eq {t : Token} {x : Terminal} (hk : t.kind = x.kind)
    (htext : x.kind.isOpen = true → t.text = x.text) : t.terminal = x := by
  refine Terminal.ext hk ?_
  by_cases hopen : x.kind.isOpen = true
  · simp [terminal, hk, hopen, htext hopen]
  · simp [terminal, hk, hopen, x.text_eq (by simpa using hopen)]

theorem terminal_of_kind {t : Token} {k : Kind} (hk : k.isOpen = false) (h : t.kind = k) :
    t.terminal = .word k :=
  terminal_eq h fun hopen => by rw [Terminal.kind_word, hk] at hopen; cases hopen

theorem terminal_ident {t : Token} (h : t.kind = .ident) : t.terminal = .ident t.text :=
  terminal_eq h fun _ => rfl

theorem terminal_int {t : Token} (h : t.kind = .intLiteral) : t.terminal = .int t.text :=
  terminal_eq h fun _ => rfl

theorem terminal_float {t : Token} (h : t.kind = .floatLiteral) : t.terminal = .float t.text :=
  terminal_eq h fun _ => rfl

theorem terminal_string {t : Token} (h : t.kind = .stringLiteral) : t.terminal = .string t.text :=
  terminal_eq h fun _ => rfl

theorem text_eq_of_terminal_eq {t u : Token} (h : t.terminal = u.terminal)
    (ht : t.kind.isOpen = true) : t.text = u.text := by
  have hk : t.kind = u.kind := congrArg Terminal.kind h
  have htext := congrArg Terminal.text h
  simpa [terminal, ht, ← hk] using htext

end Token

/-- Every terminal is shown by some token. -/
@[simp] theorem Terminal.terminal_token (x : Terminal) : x.token.terminal = x :=
  Token.terminal_eq rfl fun _ => rfl

/-! ### The kinds of operators -/

/-- The kind of the tokens for an operator of arithmetic. -/
def Arith.kind : Arith → Token.Kind
  | add => .plus
  | sub => .minus
  | mul => .star
  | div => .slash

/-- The kind of the tokens for a sign. -/
def Sign.kind : Sign → Token.Kind
  | plus => .plus
  | minus => .minus

/-- The kind of the tokens for a comparison. -/
def Comparison.kind : Comparison → Token.Kind
  | lt => .lt
  | le => .le
  | gt => .gt
  | ge => .ge
  | eq => .eqEq
  | ne => .notEq

/-- The kind of the tokens for a connective. -/
def Connective.kind : Connective → Token.Kind
  | and => .andWord
  | or => .orWord

/-- The kind of the tokens for a base type. -/
def BaseType.kind : BaseType → Token.Kind
  | int => .intWord
  | float => .floatWord

/-- The kind of the tokens for a plain or an updating assignment. -/
def Update.kindOf : Option Update → Token.Kind
  | none => .assign
  | some .add => .plusAssign
  | some .sub => .minusAssign

namespace Grammar

theorem signOf_eq_some {k : Token.Kind} {sign : Sign} : signOf k = some sign ↔ k = sign.kind := by
  cases k <;> cases sign <;> decide

theorem comparisonOf_eq_some {k : Token.Kind} {op : Comparison} :
    comparisonOf k = some op ↔ k = op.kind := by
  cases k <;> cases op <;> decide

theorem assignmentOf_eq_some {k : Token.Kind} {update : Option Update} :
    assignmentOf k = some update ↔ k = Update.kindOf update := by
  rcases update with _ | _ | _ <;> cases k <;> decide

theorem baseTypeOf_eq_some {k : Token.Kind} {base : BaseType} :
    typeName.baseTypeOf k = some base ↔ k = base.kind := by
  cases k <;> cases base <;> decide

end Grammar
end SyntaxGraph
