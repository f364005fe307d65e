/-
# Token streams

What a grammar reads: tokens, and behind them the end of the input or a
lexical error. Any list of items makes a stream (`TokenStream.ofItems`): it
ends at the first item that is no proper token, and without one at the place
of its last token.

A lexical error counts as soon as the token before it is taken, not only when
the grammar asks for more.

Key definitions: `TokenStream`, `TokenStream.ofItems`, `Parser`, `accept`,
`choose`, `expect`, `collect`.
-/
import SyntaxGraph.Grammar.Error

namespace SyntaxGraph

/-- What stands behind the last token. -/
inductive Ending where
  | endOfInput (position : Position)
  | broken (e : LexicalError)
  deriving DecidableEq, Repr

/-- Tokens, none of which is the end of the input, and what is behind them. -/
structure TokenStream where
  tokens : List Token
  ending : Ending
  deriving DecidableEq, Repr

namespace TokenStream

/-- The stream with one more token in front. -/
def cons (t : Token) (s : TokenStream) : TokenStream :=
  ⟨t :: s.tokens, s.ending⟩

/-- The stream of the items that follow a token at `last`. -/
def ofItemsAfter (last : Position) : List Item → TokenStream
  | [] => ⟨[], .endOfInput last⟩
  | .error e :: _ => ⟨[], .broken e⟩
  | .ok t :: items =>
    if t.kind = .eof then ⟨[], .endOfInput t.position⟩ else (ofItemsAfter t.position items).cons t

/-- The stream of a list of items. -/
def ofItems (items : List Item) : TokenStream :=
  ofItemsAfter .start items

end TokenStream

/-- A part of the grammar: takes tokens from the front of a stream. -/
abbrev Parser := StateT TokenStream (Except ParseError)

namespace Grammar

/-- Fails at the token `t`. -/
def failAt {α : Type} (t : Token) (expected : Expectation) : Parser α :=
  throw (.grammar ⟨some t, expected, t.position⟩)

/-- Fails at the token in front. -/
def unexpected {α : Type} (expected : Expectation) : Parser α := fun s =>
  match s.tokens, s.ending with
  | t :: _, _ => failAt t expected s
  | [], .endOfInput p => throw (.grammar ⟨none, expected, p⟩)
  | [], .broken e => throw (.lexical e)

/-- Whether a token is in front whose kind passes the test. -/
def peek (test : Token.Kind → Bool) : Parser Bool := fun s =>
  return (s.tokens.head?.any fun t => test t.kind, s)

/-- Whether no token is left. -/
def atEnd : Parser Bool := fun s =>
  return (s.tokens.isEmpty, s)

/-- Fails if a lexical error has come to the front. -/
def settle : Parser Unit := fun s =>
  match s with
  | ⟨[], .broken e⟩ => throw (.lexical e)
  | s => return ((), s)

/-- Takes the token in front if `f` has an entry for it. -/
def chooseToken {α : Type} (f : Token → Option α) : Parser (Option α) := fun s =>
  match s with
  | ⟨t :: ts, ending⟩ =>
    match f t with
    | some a => (do settle; return some a : Parser (Option α)) ⟨ts, ending⟩
    | none => return (none, s)
  | ⟨[], _⟩ => return (none, s)

/-- Takes the token in front if `f` has an entry for its kind. -/
def choose {α : Type} (f : Token.Kind → Option α) : Parser (Option α) :=
  chooseToken fun t => f t.kind

/-- Takes the token in front if it is of the kind `kind`. -/
def accept? (kind : Token.Kind) : Parser (Option Token) :=
  chooseToken fun t => if t.kind = kind then some t else none

/-- Takes the token in front if it is of the kind `kind`, and says whether. -/
def accept (kind : Token.Kind) : Parser Bool :=
  return (← accept? kind).isSome

/-- Takes a token of the kind `kind`, which has to stand in this place. -/
def expect (kind : Token.Kind) (place : Place) : Parser Token := do
  match ← accept? kind with
  | some t => return t
  | none => unexpected (.token kind place)

/-- Repeats `step` until it yields nothing, and at most once for each of the
given tokens. -/
def collectWithin {α : Type} (step : Parser (Option α)) : List Token → Parser (List α)
  | [] => return []
  | _ :: others => do
    match ← step with
    | some a => return a :: (← collectWithin step others)
    | none => return []

/-- Repeats `step`, which takes a token whenever it yields something, until it
yields nothing: the tokens at hand bound the rounds. -/
def collect {α : Type} (step : Parser (Option α)) : Parser (List α) := fun s =>
  collectWithin step s.tokens s

/-- One or more of `item`, with a token of the kind `separator` in between. -/
def separated {α : Type} (separator : Token.Kind) (item : Parser α) : Parser (List α) := do
  let first ← item
  let others ← collect do
    if ← accept separator then return some (← item) else return none
  return first :: others

/-- Operands joined by operators that group to the left. -/
def chained {α ω : Type} (join : ω → α → α → α) (operator : Parser (Option ω))
    (operand : Parser α) : Parser α := do
  let first ← operand
  let others ← collect do
    match ← operator with
    | some op => return some (op, ← operand)
    | none => return none
  return others.foldl (fun left (op, right) => join op left right) first

end Grammar
end SyntaxGraph
