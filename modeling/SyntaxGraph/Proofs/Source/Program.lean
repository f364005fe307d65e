/-
# Writing programs

The canonical source of a program: reserved words in lower case, single spaces
between terminals, parentheses only where the grammar asks for them, and no
semicolon behind the last declaration. Reading the canonical source of a
printable program gives the program back, as long as its nesting is within the
limit.

Key definitions: `Stmt.clause`, `Program.phrase`, `Program.Printable`,
`Program.canonicalSource`.
Key theorems: `parseSource_canonicalSource`.
-/
import SyntaxGraph.Proofs.Source.Expr

namespace SyntaxGraph

open Terminal

/-! ### Statements -/

namespace Stmt

mutual

/-- The clause that a statement is written as. -/
def clause (σ : Shielding) : Stmt → Clause
  | print text => .print text
  | assign l e => .assign none (l.phrase σ) ((e.phrase σ).enclosed .sum)
  | update op l e => .assign (some op) (l.phrase σ) ((e.phrase σ).enclosed .sum)
  | ifThen c s => .ifThen (c.phrase σ) (s.clause σ)
  | ifThenElse c s t => .ifThenElse (c.phrase σ) (s.clause σ) (t.clause σ)
  | whileDo c s => .whileDo (c.phrase σ) (s.clause σ)
  | read l => .read (l.phrase σ)
  | write e => .write ((e.phrase σ).enclosed .sum)
  | ret e => .ret ((e.phrase σ).enclosed .sum)
  | leave => .leave
  | skip => .skip
  | block ss => .block (clauses σ ss)

/-- The clauses that statements are written as. -/
def clauses (σ : Shielding) : List Stmt → List Clause
  | [] => []
  | s :: ss => s.clause σ :: clauses σ ss

end

/-- An `if` without an `else` is at the right edge of the statement. -/
def endsInIf : Stmt → Bool
  | ifThen .. => true
  | ifThenElse _ _ t => t.endsInIf
  | whileDo _ s => s.endsInIf
  | _ => false

mutual

/-- The expressions are printable, targets are locations, blocks are not empty,
and no `else` would go with an `if` at the right edge of the branch before it. -/
def Printable : Stmt → Prop
  | print _ | leave | skip => True
  | assign l e | update _ l e => l.isLocation = true ∧ l.Printable ∧ e.Printable
  | ifThen c s | whileDo c s => c.Printable ∧ s.Printable
  | ifThenElse c s t => c.Printable ∧ s.Printable ∧ s.endsInIf = false ∧ t.Printable
  | read l => l.isLocation = true ∧ l.Printable
  | write e | ret e => e.Printable
  | block ss => ss ≠ [] ∧ AllPrintable ss

/-- All statements are printable. -/
def AllPrintable : List Stmt → Prop
  | [] => True
  | s :: ss => s.Printable ∧ AllPrintable ss

end

@[simp] theorem clauses_eq_map (σ : Shielding) (ss : List Stmt) : clauses σ ss = ss.map (clause σ) := by
  induction ss with
  | nil => rfl
  | cons s ss ih => simp [clauses, ih]

end Stmt

namespace Clause

/-- The clause is written for the statement `s`: it is grammatical, and its
terminals have spellings. -/
structure Writes (c : Clause) (s : Stmt) : Prop where
  tree : c.tree = s
  grammatical : c.Grammatical
  isSpelled : ∀ x ∈ c.yield, x.IsSpelled

theorem endsInIf_tree : ∀ c : Clause, c.tree.endsInIf = c.endsInIf
  | ifThenElse _ _ t => endsInIf_tree t
  | whileDo _ s => endsInIf_tree s
  | assign none _ _ | assign (some _) _ _ => rfl
  | print _ | ifThen .. | read _ | write _ | ret _ | leave | skip | block _ => rfl

end Clause

/-- A location is written as a target. -/
theorem Expr.isTarget_phrase {σ : Shielding} {l : Expr} (hl : l.isLocation = true)
    (h : (l.phrase σ).Writes l) : (l.phrase σ).IsTarget := by
  cases l with
  | var x => trivial
  | entry a i => exact h.grammatical
  | _ => cases hl

theorem Clause.isSpelled_parenthesized {k : Token.Kind} {w : List Terminal}
    (hk : k ∈ Token.Kind.reserved ∨ k ∈ Token.Kind.symbols) (hw : ∀ x ∈ w, x.IsSpelled) :
    ∀ x ∈ parenthesized k w, x.IsSpelled :=
  isSpelled_cons hk (isSpelled_cons (by decide) (isSpelled_append hw (by decide) nofun))

namespace Stmt

mutual

/-- A statement is written as a grammatical clause for it, with spellings
throughout. -/
theorem clause_writes (σ : Shielding) : ∀ s : Stmt, s.Printable → (s.clause σ).Writes s
  | print text, _ =>
    ⟨rfl, trivial, Clause.isSpelled_parenthesized (by decide)
      (List.forall_mem_singleton.mpr (isSpelled_string text))⟩
  | assign l e, h => by
    obtain ⟨hloc, hl, he⟩ := h
    have htarget := l.phrase_writes σ hl
    have hvalue := (e.phrase_writes σ he).enclosed .sum
    exact ⟨by rw [clause, Clause.tree, htarget.tree, hvalue.tree],
      ⟨l.isTarget_phrase hloc htarget, Phrase.fits_enclosed .., hvalue.grammatical⟩,
      isSpelled_append htarget.isSpelled (by decide) hvalue.isSpelled⟩
  | update op l e, h => by
    obtain ⟨hloc, hl, he⟩ := h
    have htarget := l.phrase_writes σ hl
    have hvalue := (e.phrase_writes σ he).enclosed .sum
    exact ⟨by rw [clause, Clause.tree, htarget.tree, hvalue.tree],
      ⟨l.isTarget_phrase hloc htarget, Phrase.fits_enclosed .., hvalue.grammatical⟩,
      isSpelled_append htarget.isSpelled (by cases op <;> decide) hvalue.isSpelled⟩
  | ifThen c s, h => by
    obtain ⟨hc, hs⟩ := h
    have hcondition := c.phrase_writes σ hc
    have hyes := clause_writes σ s hs
    exact ⟨by rw [clause, Clause.tree, hcondition.tree, hyes.tree],
      ⟨hcondition.grammatical, hyes.grammatical⟩,
      isSpelled_cons (by decide) (isSpelled_append hcondition.isSpelled (by decide) hyes.isSpelled)⟩
  | ifThenElse c s t, h => by
    obtain ⟨hc, hs, hclosed, ht⟩ := h
    have hcondition := c.phrase_writes σ hc
    have hyes := clause_writes σ s hs
    have hno := clause_writes σ t ht
    have hclosed' : (s.clause σ).endsInIf = false := by
      rw [← Clause.endsInIf_tree, hyes.tree, hclosed]
    exact ⟨by rw [clause, Clause.tree, hcondition.tree, hyes.tree, hno.tree],
      ⟨hcondition.grammatical, hyes.grammatical, hclosed', hno.grammatical⟩,
      isSpelled_cons (by decide) (isSpelled_append hcondition.isSpelled (by decide)
        (isSpelled_append hyes.isSpelled (by decide) hno.isSpelled))⟩
  | whileDo c s, h => by
    obtain ⟨hc, hs⟩ := h
    have hcondition := c.phrase_writes σ hc
    have hbody := clause_writes σ s hs
    exact ⟨by rw [clause, Clause.tree, hcondition.tree, hbody.tree],
      ⟨hcondition.grammatical, hbody.grammatical⟩,
      isSpelled_cons (by decide) (isSpelled_append hcondition.isSpelled (by decide) hbody.isSpelled)⟩
  | read l, h => by
    obtain ⟨hloc, hl⟩ := h
    have htarget := l.phrase_writes σ hl
    exact ⟨by rw [clause, Clause.tree, htarget.tree], l.isTarget_phrase hloc htarget,
      Clause.isSpelled_parenthesized (by decide) htarget.isSpelled⟩
  | write e, h => by
    have hvalue := (e.phrase_writes σ h).enclosed .sum
    exact ⟨by rw [clause, Clause.tree, hvalue.tree], ⟨Phrase.fits_enclosed .., hvalue.grammatical⟩,
      Clause.isSpelled_parenthesized (by decide) hvalue.isSpelled⟩
  | ret e, h => by
    have hvalue := (e.phrase_writes σ h).enclosed .sum
    exact ⟨by rw [clause, Clause.tree, hvalue.tree], ⟨Phrase.fits_enclosed .., hvalue.grammatical⟩,
      isSpelled_cons (by decide) hvalue.isSpelled⟩
  | leave, _ => ⟨rfl, trivial, isSpelled_cons (by decide) nofun⟩
  | skip, _ => ⟨rfl, trivial, isSpelled_cons (by decide) nofun⟩
  | block ss, h => by
    obtain ⟨hne, hss⟩ := h
    have hclauses := clauses_write σ ss hss
    have hwords := isSpelled_joined (k := .semicolon) (by decide) fun s hs => (hclauses s hs).isSpelled
    rw [clause, clauses_eq_map]
    refine ⟨?_, ⟨by simpa using hne, ?_⟩, ?_⟩
    · rw [Clause.tree, Clause.trees_eq_map, map_map_eq_self fun s hs => (hclauses s hs).tree]
    · rw [Clause.allGrammatical_iff]
      exact List.forall_mem_map.mpr fun s hs => (hclauses s hs).grammatical
    · rw [Clause.yield, Clause.yields_eq_map]
      exact isSpelled_cons (by decide) (isSpelled_append hwords (by decide) nofun)

theorem clauses_write (σ : Shielding) :
    ∀ ss : List Stmt, AllPrintable ss → ∀ s ∈ ss, (s.clause σ).Writes s
  | [], _ => nofun
  | s :: ss, h => List.forall_mem_cons.mpr ⟨clause_writes σ s h.1, clauses_write σ ss h.2⟩

end

end Stmt

/-! ### Programs -/

/-- The type as it is written. -/
def TypeName.phrase (σ : Shielding) (t : TypeName) : TypePhrase :=
  ⟨t.base, t.size.map fun e => (e.phrase σ).enclosed .sum⟩

/-- The declaration as it is written. -/
def Declaration.phrase (σ : Shielding) (d : Declaration) : DeclarationPhrase :=
  ⟨d.name, d.type.phrase σ⟩

/-- The function as it is written. -/
def Function.phrase (σ : Shielding) (f : Function) : FunctionPhrase where
  name := f.name
  parameters := f.parameters.map (Declaration.phrase σ)
  declarations := f.declarations.map (Declaration.phrase σ)
  semicolon := false
  body := f.body.map (Stmt.clause σ)

/-- The program as it is written. -/
def Program.phrase (σ : Shielding) (p : Program) : ProgramPhrase :=
  ⟨p.functions.map (Function.phrase σ)⟩

/-- The declared name is a name, and the size is printable if there is one. -/
structure Declaration.Printable (d : Declaration) : Prop where
  name : IsName d.name
  size : ∀ e ∈ d.type.size, e.Printable

/-- All parts of the function are printable, and its body is not empty. -/
structure Function.Printable (f : Function) : Prop where
  name : IsName f.name
  parameters : ∀ d ∈ f.parameters, d.Printable
  declarations : ∀ d ∈ f.declarations, d.Printable
  body_ne_nil : f.body ≠ []
  body : ∀ s ∈ f.body, s.Printable

/-- There is a function, and all of them are printable. -/
structure Program.Printable (p : Program) : Prop where
  functions_ne_nil : p.functions ≠ []
  functions : ∀ f ∈ p.functions, f.Printable

/-- The canonical source of a program. -/
def Program.canonicalSource (σ : Shielding) (p : Program) : String :=
  String.ofList (Terminal.spaced (p.phrase σ).yield)

variable {σ : Shielding}

theorem Declaration.Printable.phrase_writes {d : Declaration} (h : d.Printable) :
    (d.phrase σ).tree = d ∧ (d.phrase σ).type.Grammatical ∧ ∀ x ∈ (d.phrase σ).yield, x.IsSpelled := by
  have hbase : ∀ b : BaseType, b.kind ∈ Token.Kind.reserved ∨ b.kind ∈ Token.Kind.symbols := by
    rintro (_ | _) <;> decide
  obtain ⟨name, base, _ | e⟩ := d
  · refine ⟨rfl, nofun, List.forall_mem_cons.mpr ⟨isSpelled_ident h.name, ?_⟩⟩
    exact isSpelled_cons (by decide) (isSpelled_cons (hbase base) nofun)
  · have he := (e.phrase_writes σ (h.size e rfl)).enclosed .sum
    refine ⟨?_, ?_, List.forall_mem_cons.mpr ⟨isSpelled_ident h.name, ?_⟩⟩
    · simp only [phrase, TypeName.phrase, Option.map_some, DeclarationPhrase.tree, TypePhrase.tree,
        he.tree]
    · rintro _ ⟨⟩
      exact ⟨Phrase.fits_enclosed .., he.grammatical⟩
    · exact isSpelled_cons (by decide) (isSpelled_cons (hbase base)
        (isSpelled_cons (by decide) (isSpelled_append he.isSpelled (by decide) nofun)))

/-- A function is written as a grammatical one, with spellings throughout. -/
theorem Function.Printable.phrase_writes {f : Function} (h : f.Printable) :
    (f.phrase σ).tree = f ∧ (f.phrase σ).Grammatical ∧ ∀ x ∈ (f.phrase σ).yield, x.IsSpelled := by
  have hparameters := fun d hd => (h.parameters d hd).phrase_writes (σ := σ)
  have hdeclarations := fun d hd => (h.declarations d hd).phrase_writes (σ := σ)
  have hbody : ∀ s ∈ f.body, (s.clause σ).Writes s := fun s hs => s.clause_writes σ (h.body s hs)
  refine ⟨?_, ?_, ?_⟩
  · simp only [phrase, FunctionPhrase.tree, map_map_eq_self fun d hd => (hparameters d hd).1,
      map_map_eq_self fun d hd => (hdeclarations d hd).1, map_map_eq_self fun s hs => (hbody s hs).tree]
  · refine ⟨?_, ?_, nofun, ?_, ?_⟩
    · exact List.forall_mem_map.mpr fun d hd => (hparameters d hd).2.1
    · exact List.forall_mem_map.mpr fun d hd => (hdeclarations d hd).2.1
    · simpa [phrase] using h.body_ne_nil
    · exact List.forall_mem_map.mpr fun s hs => (hbody s hs).grammatical
  · have hps := isSpelled_joined (k := .comma) (by decide) fun d hd => (hparameters d hd).2.2
    have hds := isSpelled_joined (k := .semicolon) (by decide) fun d hd => (hdeclarations d hd).2.2
    have hss := isSpelled_joined (k := .semicolon) (by decide) fun s hs => (hbody s hs).isSpelled
    refine isSpelled_cons (by decide) (List.forall_mem_cons.mpr ⟨isSpelled_ident h.name, ?_⟩)
    refine isSpelled_cons (by decide) (isSpelled_append hps (by decide) ?_)
    refine isSpelled_append (List.forall_mem_append.mpr ⟨hds, nofun⟩) (by decide) ?_
    exact isSpelled_append hss (by decide) nofun

/-- **A program is written as a grammatical one**, with spellings throughout. -/
theorem Program.Printable.phrase_writes {p : Program} (h : p.Printable) :
    (p.phrase σ).tree = p ∧ (p.phrase σ).Grammatical ∧ ∀ x ∈ (p.phrase σ).yield, x.IsSpelled := by
  have hf := fun f hf => (h.functions f hf).phrase_writes (σ := σ)
  refine ⟨?_, ⟨?_, ?_⟩, ?_⟩
  · rw [phrase, ProgramPhrase.tree, map_map_eq_self fun f hmem => (hf f hmem).1]
  · simpa [phrase] using h.functions_ne_nil
  · exact List.forall_mem_map.mpr fun f hmem => (hf f hmem).2.1
  · intro x hx
    obtain ⟨d, hd, hx⟩ := List.mem_flatMap.mp hx
    obtain ⟨f, hmem, rfl⟩ := List.mem_map.mp hd
    exact (hf f hmem).2.2 x hx

open Grammar in
/-- **The canonical source of a program is read as that program**, whichever way
`not` is shielded, as long as the nesting of the source is within the limit. -/
theorem parseSource_canonicalSource (σ : Shielding) (p : Program) (hp : p.Printable)
    (hn : (p.phrase σ).Within nestingLimit) : parseSource (p.canonicalSource σ) = .ok p := by
  obtain ⟨htree, hgrammatical, hspelled⟩ := hp.phrase_writes (σ := σ)
  obtain ⟨ts, q, hitems, hterminals, hkinds⟩ := items_spaced hspelled
  rw [parseSource, Program.canonicalSource, hitems, parse, TokenStream.ofItems_tokens hkinds rfl,
    TokenStream.parse_eq_ok]
  exact ⟨_, htree ▸ program_parses hgrammatical hn hterminals⟩

/-- A loop with an update of an entry, and a string with escapes. -/
def countdown : Program :=
  ⟨[⟨"main", [⟨"n", ⟨.int, none⟩⟩], [⟨"a", ⟨.float, some (.number (.int 4))⟩⟩],
    [.whileDo (.logical .and (.not (.var "n")) (.compare .lt (.var "n") (.number (.int 9))))
        (.update .sub (.entry "a" (.var "n"))
          (.arith .mul (.arith .sub (.var "n") (.number (.int 1))) (.number (.int 2)))),
      .print "a\t\"b\""]⟩]⟩

/-- The canonical source of a program, and what is read from it. -/
theorem parseSource_countdown :
    countdown.canonicalSource .edge =
        "fun main ( n : int ) a : float [ 4 ] begin while ( not n ) and n < 9 do " ++
          "a [ n ] -= ( n - 1 ) * 2 ; print ( \"a\\t\\\"b\\\"\" ) end" ∧
      parseSource (countdown.canonicalSource .edge) = .ok countdown := by
  have hmain : IsName "main" := by decide
  have hn : IsName "n" := by decide
  have ha : IsName "a" := by decide
  have hprintable : countdown.Printable := by
    refine ⟨nofun, List.forall_mem_singleton.mpr ⟨hmain, ?_, ?_, nofun, ?_⟩⟩
    · exact List.forall_mem_singleton.mpr ⟨hn, nofun⟩
    · refine List.forall_mem_singleton.mpr ⟨ha, ?_⟩
      rintro _ ⟨⟩
      exact ⟨by decide, by decide⟩
    · refine List.forall_mem_cons.mpr ⟨?_, List.forall_mem_singleton.mpr trivial⟩
      exact ⟨⟨hn, hn, by decide, by decide⟩, rfl, ⟨ha, hn⟩, ⟨hn, by decide, by decide⟩,
        by decide, by decide⟩
  have hwithin : (countdown.phrase .edge).Within Grammar.nestingLimit := by
    refine List.forall_mem_singleton.mpr ⟨?_, ?_, ?_⟩
    · exact List.forall_mem_singleton.mpr (by decide)
    · exact List.forall_mem_singleton.mpr (by decide)
    · exact List.forall_mem_cons.mpr ⟨by decide, List.forall_mem_singleton.mpr (by decide)⟩
  exact ⟨by decide +kernel, parseSource_canonicalSource .edge countdown hprintable hwithin⟩

end SyntaxGraph
