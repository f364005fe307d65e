/-
# Programs as they are written

A clause is the parse tree of a statement, and program phrases are made of
clauses. A clause is grammatical when its phrases are, when its blocks are not
empty, and when every `else` goes with the nearest `if` that is still open: the
branch in front of an `else` does not end in an `if` that has none.

A statement opens a level of nesting for all that is in it.

Key definitions: `Clause`, `DeclarationPhrase`, `FunctionPhrase`,
`ProgramPhrase`, `ProgramPhrase.Grammatical`, `ProgramPhrase.Within`.
-/
import SyntaxGraph.Proofs.Grammar.Phrase

namespace SyntaxGraph

/-! ### Statements -/

/-- Statements as they are written. -/
inductive Clause where
  | print (text : String)
  | assign (update : Option Update) (target value : Phrase)
  | ifThen (condition : Phrase) (yes : Clause)
  | ifThenElse (condition : Phrase) (yes no : Clause)
  | whileDo (condition : Phrase) (body : Clause)
  | read (target : Phrase)
  | write (value : Phrase)
  | ret (value : Phrase)
  | leave
  | skip
  | block (clauses : List Clause)

/-- The phrase names a place that can be assigned to. -/
def Phrase.IsTarget : Phrase → Prop
  | .var _ => True
  | .entry _ i => i.Fits .sum ∧ i.Grammatical
  | _ => False

/-- How many levels a target has open at once: it opens none itself. -/
def Phrase.targetLevels : Phrase → Nat
  | .entry _ i => i.levels
  | _ => 0

namespace Clause

/-- A symbol or word, a part of a clause between the parentheses behind it. -/
def parenthesized (kind : Token.Kind) (w : List Terminal) : List Terminal :=
  .word kind :: .word .lParen :: (w ++ [.word .rParen])

mutual

/-- The terminals that a clause is written with. -/
def yield : Clause → List Terminal
  | print text => parenthesized .printWord [.string text]
  | assign update l e => l.yield ++ .word (Update.kindOf update) :: e.yield
  | ifThen c s => .word .ifWord :: (c.yield ++ .word .thenWord :: s.yield)
  | ifThenElse c s t =>
    .word .ifWord :: (c.yield ++ .word .thenWord :: (s.yield ++ .word .elseWord :: t.yield))
  | whileDo c s => .word .whileWord :: (c.yield ++ .word .doWord :: s.yield)
  | read l => parenthesized .readWord l.yield
  | write e => parenthesized .writeWord e.yield
  | ret e => .word .returnWord :: e.yield
  | leave => [.word .breakWord]
  | skip => [.word .skipWord]
  | block ss => .word .beginWord :: (joined .semicolon (yields ss) ++ [.word .endWord])

/-- The yields of clauses. -/
def yields : List Clause → List (List Terminal)
  | [] => []
  | s :: ss => s.yield :: yields ss

end

mutual

/-- The statement that a clause stands for. -/
def tree : Clause → Stmt
  | print text => .print text
  | assign none l e => .assign l.tree e.tree
  | assign (some op) l e => .update op l.tree e.tree
  | ifThen c s => .ifThen c.tree s.tree
  | ifThenElse c s t => .ifThenElse c.tree s.tree t.tree
  | whileDo c s => .whileDo c.tree s.tree
  | read l => .read l.tree
  | write e => .write e.tree
  | ret e => .ret e.tree
  | leave => .leave
  | skip => .skip
  | block ss => .block (trees ss)

/-- The statements that clauses stand for. -/
def trees : List Clause → List Stmt
  | [] => []
  | s :: ss => s.tree :: trees ss

end

/-- The clause ends in an `if` without an `else`, which would take in one
behind it. -/
def endsInIf : Clause → Bool
  | ifThen .. => true
  | ifThenElse _ _ t => t.endsInIf
  | whileDo _ s => s.endsInIf
  | _ => false

mutual

/-- The clause keeps the rules of the grammar. -/
def Grammatical : Clause → Prop
  | print _ | leave | skip => True
  | assign _ l e => l.IsTarget ∧ e.Fits .sum ∧ e.Grammatical
  | ifThen c s => c.Grammatical ∧ s.Grammatical
  | ifThenElse c s t => c.Grammatical ∧ s.Grammatical ∧ s.endsInIf = false ∧ t.Grammatical
  | whileDo c s => c.Grammatical ∧ s.Grammatical
  | read l => l.IsTarget
  | write e | ret e => e.Fits .sum ∧ e.Grammatical
  | block ss => ss ≠ [] ∧ AllGrammatical ss

/-- Clauses keep the rules of the grammar. -/
def AllGrammatical : List Clause → Prop
  | [] => True
  | s :: ss => s.Grammatical ∧ AllGrammatical ss

end

mutual

/-- How many levels of nesting the clause has open at once. -/
def levels : Clause → Nat
  | print _ | leave | skip => 1
  | assign _ l e => max l.targetLevels e.levels + 1
  | ifThen c s => max c.levels s.levels + 1
  | ifThenElse c s t => max c.levels (max s.levels t.levels) + 1
  | whileDo c s => max c.levels s.levels + 1
  | read l => l.targetLevels + 1
  | write e | ret e => e.levels + 1
  | block ss => levelsOfAll ss + 1

/-- How many levels clauses have open at once. -/
def levelsOfAll : List Clause → Nat
  | [] => 0
  | s :: ss => max s.levels (levelsOfAll ss)

end

@[simp] theorem yields_eq_map (ss : List Clause) : yields ss = ss.map yield := by
  induction ss with
  | nil => rfl
  | cons s ss ih => simp [yields, ih]

@[simp] theorem trees_eq_map (ss : List Clause) : trees ss = ss.map tree := by
  induction ss with
  | nil => rfl
  | cons s ss ih => simp [trees, ih]

@[simp] theorem allGrammatical_iff (ss : List Clause) :
    AllGrammatical ss ↔ ∀ s ∈ ss, s.Grammatical := by
  induction ss with
  | nil => simp [AllGrammatical]
  | cons s ss ih => simp [AllGrammatical, ih]

@[simp] theorem levelsOfAll_le_iff (ss : List Clause) (n : Nat) :
    levelsOfAll ss ≤ n ↔ ∀ s ∈ ss, s.levels ≤ n := by
  induction ss with
  | nil => simp [levelsOfAll]
  | cons s ss ih => rw [levelsOfAll, Nat.max_le, ih, List.forall_mem_cons]

theorem one_le_levels (c : Clause) : 1 ≤ c.levels := by
  cases c <;> simp [levels]

end Clause

/-! ### Types and declarations -/

/-- A type as it is written. -/
structure TypePhrase where
  base : BaseType
  size : Option Phrase

namespace TypePhrase

/-- The terminals that a type is written with. -/
def yield (t : TypePhrase) : List Terminal :=
  .word t.base.kind :: match t.size with
    | some e => .word .lBracket :: (e.yield ++ [.word .rBracket])
    | none => []

/-- The type that is written. -/
def tree (t : TypePhrase) : TypeName :=
  ⟨t.base, t.size.map Phrase.tree⟩

/-- The type keeps the rules of the grammar. -/
def Grammatical (t : TypePhrase) : Prop :=
  ∀ e ∈ t.size, e.Fits .sum ∧ e.Grammatical

/-- How many levels of nesting the type has open at once. -/
def levels (t : TypePhrase) : Nat :=
  (t.size.map Phrase.levels).getD 0

end TypePhrase

/-- A parameter or a local variable as it is written. -/
structure DeclarationPhrase where
  name : String
  type : TypePhrase

namespace DeclarationPhrase

/-- The terminals that a declaration is written with. -/
def yield (d : DeclarationPhrase) : List Terminal :=
  .ident d.name :: .word .colon :: d.type.yield

/-- The declaration that is written. -/
def tree (d : DeclarationPhrase) : Declaration :=
  ⟨d.name, d.type.tree⟩

end DeclarationPhrase

/-! ### Functions and programs -/

/-- A function as it is written. -/
structure FunctionPhrase where
  name : String
  parameters : List DeclarationPhrase
  declarations : List DeclarationPhrase
  /-- A semicolon stands behind the last declaration. -/
  semicolon : Bool
  body : List Clause

namespace FunctionPhrase

/-- The terminals that local declarations are written with, perhaps with a
semicolon behind the last. -/
def declarationsYield (ds : List DeclarationPhrase) (semicolon : Bool) : List Terminal :=
  joined .semicolon (ds.map DeclarationPhrase.yield) ++
    if semicolon then [.word .semicolon] else []

/-- The terminals that a function is written with. -/
def yield (f : FunctionPhrase) : List Terminal :=
  .word .funWord :: .ident f.name :: .word .lParen ::
    (joined .comma (f.parameters.map DeclarationPhrase.yield) ++ .word .rParen ::
      (declarationsYield f.declarations f.semicolon ++ .word .beginWord ::
        (joined .semicolon (f.body.map Clause.yield) ++ [.word .endWord])))

/-- The function that is written. -/
def tree (f : FunctionPhrase) : Function :=
  ⟨f.name, f.parameters.map DeclarationPhrase.tree, f.declarations.map DeclarationPhrase.tree,
    f.body.map Clause.tree⟩

/-- The function keeps the rules of the grammar. -/
structure Grammatical (f : FunctionPhrase) : Prop where
  parameters : ∀ d ∈ f.parameters, d.type.Grammatical
  declarations : ∀ d ∈ f.declarations, d.type.Grammatical
  /-- A lone semicolon is no declaration. -/
  semicolon : f.semicolon = true → f.declarations ≠ []
  body_ne_nil : f.body ≠ []
  body : ∀ s ∈ f.body, s.Grammatical

/-- The function has at most `n` levels of nesting open at once. -/
structure Within (n : Nat) (f : FunctionPhrase) : Prop where
  parameters : ∀ d ∈ f.parameters, d.type.levels ≤ n
  declarations : ∀ d ∈ f.declarations, d.type.levels ≤ n
  body : ∀ s ∈ f.body, s.levels ≤ n

end FunctionPhrase

/-- A program as it is written. -/
structure ProgramPhrase where
  functions : List FunctionPhrase

namespace ProgramPhrase

/-- The terminals that a program is written with. -/
def yield (p : ProgramPhrase) : List Terminal :=
  p.functions.flatMap FunctionPhrase.yield

/-- The program that is written. -/
def tree (p : ProgramPhrase) : Program :=
  ⟨p.functions.map FunctionPhrase.tree⟩

/-- The program keeps the rules of the grammar. -/
structure Grammatical (p : ProgramPhrase) : Prop where
  functions_ne_nil : p.functions ≠ []
  functions : ∀ f ∈ p.functions, f.Grammatical

/-- The program has at most `n` levels of nesting open at once. -/
def Within (n : Nat) (p : ProgramPhrase) : Prop :=
  ∀ f ∈ p.functions, f.Within n

theorem Within.mono {m n : Nat} {p : ProgramPhrase} (h : p.Within m) (hmn : m ≤ n) : p.Within n :=
  fun f hf => ⟨fun d hd => Nat.le_trans ((h f hf).parameters d hd) hmn,
    fun d hd => Nat.le_trans ((h f hf).declarations d hd) hmn,
    fun c hc => Nat.le_trans ((h f hf).body c hc) hmn⟩

/-- A function with a single clause makes a program. -/
theorem grammatical_single {x : String} {c : Clause} (hc : c.Grammatical) :
    Grammatical ⟨[⟨x, [], [], false, [c]⟩]⟩ :=
  ⟨List.cons_ne_nil _ _, List.forall_mem_singleton.mpr
    ⟨List.forall_mem_nil _, List.forall_mem_nil _, fun h => absurd h Bool.false_ne_true,
      List.cons_ne_nil _ _, List.forall_mem_singleton.mpr hc⟩⟩

theorem within_single {n : Nat} {x : String} {c : Clause} (hc : c.levels ≤ n) :
    Within n ⟨[⟨x, [], [], false, [c]⟩]⟩ :=
  List.forall_mem_singleton.mpr
    ⟨List.forall_mem_nil _, List.forall_mem_nil _, List.forall_mem_singleton.mpr hc⟩

theorem exists_bound {α : Type} (measure : α → Nat) : ∀ as : List α, ∃ n, ∀ a ∈ as, measure a ≤ n
  | [] => ⟨0, by simp⟩
  | a :: as => by
    obtain ⟨n, hn⟩ := exists_bound measure as
    exact ⟨max (measure a) n, List.forall_mem_cons.mpr ⟨Nat.le_max_left .., fun b hb =>
      Nat.le_trans (hn b hb) (Nat.le_max_right ..)⟩⟩

/-- Every program has some number of levels open at once. -/
theorem exists_within (p : ProgramPhrase) : ∃ n, p.Within n := by
  have hf : ∀ f : FunctionPhrase, ∃ n, f.Within n := by
    intro f
    obtain ⟨a, ha⟩ := exists_bound (fun d : DeclarationPhrase => d.type.levels) f.parameters
    obtain ⟨b, hb⟩ := exists_bound (fun d : DeclarationPhrase => d.type.levels) f.declarations
    obtain ⟨c, hc⟩ := exists_bound Clause.levels f.body
    refine ⟨max a (max b c), fun d hd => ?_, fun d hd => ?_, fun s hs => ?_⟩
    · exact Nat.le_trans (ha d hd) (Nat.le_max_left ..)
    · exact Nat.le_trans (hb d hd) (by omega)
    · exact Nat.le_trans (hc s hs) (by omega)
  obtain ⟨fs⟩ := p
  induction fs with
  | nil => exact ⟨0, fun f hf => by simp at hf⟩
  | cons f fs ih =>
    obtain ⟨m, hm⟩ := hf f
    obtain ⟨n, hn⟩ := ih
    have hhead : Within (max m n) ⟨[f]⟩ := Within.mono (by simpa [Within] using hm) (Nat.le_max_left ..)
    exact ⟨max m n, List.forall_mem_cons.mpr ⟨hhead f (by simp), hn.mono (Nat.le_max_right ..)⟩⟩

end ProgramPhrase
end SyntaxGraph
