/-
# How programs are read

A function that keeps the rules and opens no more levels than the limit is read
as the function it stands for and to its end, and a row of functions as a
program. What follows a row of functions is read as it would be alone.

Key theorems: `Grammar.declarations_parses`, `Grammar.function_parses`,
`Grammar.program_push`, `Grammar.program_parses`.
-/
import SyntaxGraph.Proofs.Grammar.ProgramVerdict
import SyntaxGraph.Proofs.Grammar.StmtReading

namespace SyntaxGraph
namespace Grammar

open TokenStream

section

variable {limit : Nat}

/-! ### Declarations -/

theorem typeName_parses {u : TypePhrase} {ts : List Token} {s : TokenStream} (hs : Clear s)
    (hu : u.Grammatical) (hn : u.levels ≤ limit) (hts : terminals ts = u.yield) :
    typeName limit (s.push ts) = .ok (u.tree, s) := by
  obtain ⟨base, size⟩ := u
  obtain ⟨t, _, rfl, ht, hrest⟩ := terminals_eq_cons hts
  have hbase : typeName.baseTypeOf t.kind = some base := baseTypeOf_eq_some.mpr (kind_of_terminal ht)
  cases size with
  | none =>
    obtain rfl := terminals_eq_nil hrest
    have hne : s.next ≠ some .lBracket := hs.next_ne (by simp [Token.Kind.binds])
    rw [typeName, bind_of_ok (choose_push hbase hs.settled)]
    exact accept_else hne
  | some e =>
    obtain ⟨b, _, rfl, hb, hrest⟩ := terminals_eq_cons hrest
    obtain ⟨es, b', rfl, hes, hb'⟩ := terminals_eq_concat_word hrest
    have hclose : b'.kind.binds = none := by simp [hb', Token.Kind.binds]
    have hsize : expression limit (level limit limit) (s.push (es ++ [b'])) =
        .ok (e.tree, s.push [b']) :=
      expression_before (sound_level limit limit) (complete_level limit limit) hclose (hu e rfl) hn hes
    rw [push_cons, typeName, bind_of_ok (choose_push hbase (hs.settled.push _)), push_cons]
    refine (accept_then (kind_of_terminal hb) (hs.settled.push _)).trans ?_
    rw [bind_of_ok hsize, bind_of_ok (expect_push hb' hs.settled)]
    rfl

theorem declaration_parses (name colon : Place) {d : DeclarationPhrase} {ts : List Token}
    {s : TokenStream} (hs : Clear s) (hd : d.type.Grammatical ∧ d.type.levels ≤ limit)
    (hts : terminals ts = d.yield) : declaration limit name colon (s.push ts) = .ok (d.tree, s) := by
  obtain ⟨t, _, rfl, ht, hrest⟩ := terminals_eq_cons hts
  obtain ⟨c, us, rfl, hc, hus⟩ := terminals_eq_cons hrest
  have htext : t.text = d.name := text_of_terminal ht rfl
  have htk : t.kind = .ident := kind_of_terminal ht
  have hck : c.kind = .colon := kind_of_terminal hc
  rw [push_cons, declaration, bind_of_ok (expect_push htk (hs.settled.push _)), push_cons,
    bind_of_ok (expect_push hck (hs.settled.push _)),
    bind_of_ok (typeName_parses hs hd.1 hd.2 hus), htext]
  rfl

/-- The parameters are read up to the parenthesis behind them. -/
theorem parameters_parses {ds : List DeclarationPhrase} {ts us : List Token} {t : Token}
    {s : TokenStream} (ht : t.kind = .rParen)
    (hds : ∀ d ∈ ds, d.type.Grammatical ∧ d.type.levels ≤ limit)
    (hts : terminals ts = joined .comma (ds.map DeclarationPhrase.yield)) :
    parameters limit (s.push (ts ++ t :: us)) =
      .ok (ds.map DeclarationPhrase.tree, s.push (t :: us)) := by
  have hclear : Clear (s.push (t :: us)) := clear_push (by simp [ht, Token.Kind.binds])
  rw [← push_push, parameters, bind_of_ok (peek_run _ _)]
  cases ds with
  | nil =>
    obtain rfl := terminals_eq_nil (w := ts) (by simpa [joined] using hts)
    simp [ht, pure_run]
  | cons d ds =>
    have hopen : ((s.push (t :: us)).push ts).next.any (· = .rParen) = false := by
      obtain ⟨v, vs, rfl, hv, -⟩ := terminals_eq_cons (w := ts) hts
      have hvk : v.kind = .ident := kind_of_terminal hv
      simp [hvk]
    rw [hopen]
    refine separated_parses Clear (declaration_meets limit _ _).forward
      (fun t ts s ht => clear_push (by simp [ht, Token.Kind.binds])) ?_ hclear.settled hclear
      (by simp [ht]) hts
    exact fun x hx us r _ hr hus => declaration_parses _ _ hr (hds x hx) hus

/-- A declaration is next when a name is in front, and none when none is. -/
theorem nextDeclaration_some {d : DeclarationPhrase} {ts : List Token} {s : TokenStream}
    (hs : Clear s) (hd : d.type.Grammatical ∧ d.type.levels ≤ limit) (hts : terminals ts = d.yield) :
    nextDeclaration limit (s.push ts) = .ok (some d.tree, s) := by
  have hident : (s.push ts).next = some .ident := by
    obtain ⟨t, us, rfl, ht, -⟩ := terminals_eq_cons hts
    exact congrArg some (kind_of_terminal ht)
  rw [nextDeclaration, bind_of_ok (peek_run _ _), hident]
  exact bind_of_ok (declaration_parses _ _ hs hd hts)

theorem nextDeclaration_none {s : TokenStream} (hs : s.next ≠ some .ident) :
    nextDeclaration limit s = .ok (none, s) := by
  have hno : s.next.any (· = .ident) = false := by
    cases hk : s.next with
    | none => rfl
    | some k => simpa [hk] using hs
  rw [nextDeclaration, bind_of_ok (peek_run _ _), hno]
  rfl

/-- No declaration and no semicolon goes on here. -/
structure AfterDeclarations (s : TokenStream) : Prop where
  clear : Clear s
  ident : s.next ≠ some .ident
  semicolon : s.next ≠ some .semicolon

/-- The step from one declaration to the next. -/
abbrev furtherDeclaration (limit : Nat) : Parser (Option Declaration) := do
  if ← accept .semicolon then nextDeclaration limit else return none

theorem repeatable_furtherDeclaration : Repeatable (furtherDeclaration limit) :=
  repeatable_accept (nextDeclaration_meets limit).forward

/-- The declarations behind the first are read one by one, and a semicolon behind
the last is taken too. -/
theorem furtherDeclarations_parse (semicolon : Bool) :
    ∀ (ds : List DeclarationPhrase) (ts : List Token) (s : TokenStream), AfterDeclarations s →
      (∀ d ∈ ds, d.type.Grammatical ∧ d.type.levels ≤ limit) →
      terminals ts = (ds.map DeclarationPhrase.yield).flatMap (.word .semicolon :: ·) ++
        (if semicolon then [.word .semicolon] else []) →
      Clear (s.push ts) ∧
        collect (furtherDeclaration limit) (s.push ts) = .ok (ds.map DeclarationPhrase.tree, s)
  | [], ts, s, hs, _, hts => by
    cases semicolon with
    | false =>
      obtain rfl := terminals_eq_nil (w := ts) (by simpa using hts)
      exact ⟨hs.clear, collect_none repeatable_furtherDeclaration (accept_else hs.semicolon)⟩
    | true =>
      obtain ⟨t, rfl, ht⟩ := terminals_eq_singleton (w := ts) (by simpa using hts)
      have htk : t.kind = .semicolon := kind_of_terminal ht
      refine ⟨clear_push (by simp [htk, Token.Kind.binds]),
        collect_none repeatable_furtherDeclaration ?_⟩
      exact (accept_then htk hs.clear.settled).trans (nextDeclaration_none hs.ident)
  | d :: ds, ts, s, hs, hds, hts => by
    obtain ⟨t, _, rfl, ht, hrest⟩ := terminals_eq_cons (w := ts) (v := d.yield ++ _) (by simpa using hts)
    obtain ⟨us, vs, rfl, hus, hvs⟩ := terminals_eq_append hrest
    obtain ⟨hclear, hcollect⟩ := furtherDeclarations_parse semicolon ds vs s hs
      (fun x hx => hds x (List.mem_cons_of_mem _ hx)) hvs
    have htk : t.kind = .semicolon := kind_of_terminal ht
    refine ⟨clear_push (by simp [htk, Token.Kind.binds]),
      collect_some repeatable_furtherDeclaration ?_ hcollect⟩
    rw [push_cons, ← push_push]
    refine (accept_then htk (hclear.settled.push us)).trans ?_
    exact nextDeclaration_some hclear (hds d (List.mem_cons_self ..)) hus

theorem declarations_parses {ds : List DeclarationPhrase} {semicolon : Bool} {ts : List Token}
    {s : TokenStream} (hs : AfterDeclarations s) (hsemicolon : semicolon = true → ds ≠ [])
    (hds : ∀ d ∈ ds, d.type.Grammatical ∧ d.type.levels ≤ limit)
    (hts : terminals ts = FunctionPhrase.declarationsYield ds semicolon) :
    declarations limit (s.push ts) = .ok (ds.map DeclarationPhrase.tree, s) := by
  cases ds with
  | nil =>
    obtain rfl : semicolon = false := Bool.eq_false_iff.mpr fun h => hsemicolon h rfl
    obtain rfl := terminals_eq_nil (w := ts) hts
    rw [push_nil, declarations, bind_of_ok (nextDeclaration_none hs.ident)]
    rfl
  | cons d ds =>
    obtain ⟨us, vs, rfl, hus, hvs⟩ := terminals_eq_append (w := ts) (u := d.yield)
      (by simpa [FunctionPhrase.declarationsYield, joined] using hts)
    obtain ⟨hclear, hcollect⟩ := furtherDeclarations_parse semicolon ds vs s hs
      (fun x hx => hds x (List.mem_cons_of_mem _ hx)) hvs
    rw [← push_push, declarations,
      bind_of_ok (nextDeclaration_some hclear (hds d (List.mem_cons_self ..)) hus)]
    exact bind_of_ok hcollect

/-! ### Functions and programs -/

/-- What is left of a function at its last word. -/
abbrev functionEnd (f : Function) : Parser Function := do
  if ← accept .endWord then return f else unexpected .bodyEnd

/-- A function is read up to its last word, whatever is behind that. -/
theorem function_before_end {f : FunctionPhrase} {ts : List Token} {s : TokenStream}
    (hf : f.Grammatical) (hn : f.Within limit) (hts : terminals ts = f.yield) :
    ∃ e : Token, e.kind = .endWord ∧ function limit (s.push ts) = functionEnd f.tree (s.push [e]) := by
  obtain ⟨w, _, rfl, hw, hrest⟩ := terminals_eq_cons hts
  obtain ⟨t, _, rfl, ht, hrest⟩ := terminals_eq_cons hrest
  obtain ⟨o, _, rfl, ho, hrest⟩ := terminals_eq_cons hrest
  obtain ⟨ps, c, _, rfl, hps, hc, hrest⟩ := terminals_eq_append_word hrest
  obtain ⟨ds, b, _, rfl, hds, hb, hrest⟩ := terminals_eq_append_word hrest
  obtain ⟨body, e, rfl, hbody, he⟩ := terminals_eq_concat_word hrest
  have hwk : w.kind = .funWord := kind_of_terminal hw
  have htk : t.kind = .ident := kind_of_terminal ht
  have hok : o.kind = .lParen := kind_of_terminal ho
  have htext : t.text = f.name := text_of_terminal ht rfl
  have hbegin : AfterDeclarations (s.push (b :: (body ++ [e]))) :=
    ⟨clear_push (by simp [hb, Token.Kind.binds]), by simp [hb], by simp [hb]⟩
  have hparameters : parameters limit (s.push (ps ++ c :: (ds ++ b :: (body ++ [e])))) =
      .ok (f.parameters.map DeclarationPhrase.tree, s.push (c :: (ds ++ b :: (body ++ [e])))) :=
    parameters_parses hc (fun d hd => ⟨hf.parameters d hd, hn.parameters d hd⟩) hps
  have hdeclarations := declarations_parses hbegin hf.semicolon
    (fun d hd => ⟨hf.declarations d hd, hn.declarations d hd⟩) hds
  have hstatements := statements_parses (s := s) (statement_meets limit limit).forward
    (statement_parses limit limit) he hf.body_ne_nil (fun c hc => ⟨hf.body c hc, hn.body c hc⟩) hbody
  refine ⟨e, he, ?_⟩
  rw [push_cons, function, bind_of_ok (expect_push hwk (settled_of_ne_nil (by simp))), push_cons,
    bind_of_ok (expect_push htk (settled_of_ne_nil (by simp))), push_cons,
    bind_of_ok (expect_push hok (settled_of_ne_nil (by simp))), bind_of_ok hparameters, push_cons,
    bind_of_ok (expect_push hc (settled_of_ne_nil (by simp))), ← push_push,
    bind_of_ok hdeclarations, push_cons, bind_of_ok (expect_push hb (settled_of_ne_nil (by simp))),
    bind_of_ok hstatements, htext]
  rfl

theorem function_parses {f : FunctionPhrase} {ts : List Token} {s : TokenStream} (hs : s.Settled)
    (hf : f.Grammatical) (hn : f.Within limit) (hts : terminals ts = f.yield) :
    function limit (s.push ts) = .ok (f.tree, s) := by
  obtain ⟨e, he, hrun⟩ := function_before_end hf hn hts
  rw [hrun]
  exact accept_then he hs

/-- A lexical error behind a function counts before the function does. -/
theorem function_breaks {f : FunctionPhrase} {ts : List Token} {e : LexicalError}
    (hf : f.Grammatical) (hn : f.Within limit) (hts : terminals ts = f.yield) :
    function limit (push ts ⟨[], .broken e⟩) = .error (.lexical e) := by
  obtain ⟨t, ht, hrun⟩ := function_before_end hf hn hts
  rw [hrun, functionEnd, accept, bind_assoc, bind_run, accept?, chooseToken_push (if_pos ht),
    bind_run, settle_broken]

/-- The step from one function to the next. -/
abbrev nextFunction (limit : Nat) : Parser (Option Function) := do
  if ← atEnd then return none else return some (← function limit)

theorem repeatable_nextFunction : Repeatable (nextFunction limit) :=
  repeatable_function limit

theorem nextFunction_of_ne_nil {s : TokenStream} (hs : s.tokens ≠ []) :
    nextFunction limit s = (do return some (← function limit) : Parser (Option Function)) s := by
  have hopen : s.tokens.isEmpty = false := by simpa using hs
  rw [nextFunction, bind_of_ok (atEnd_run s), hopen]
  rfl

theorem nextFunction_of_eq_nil {s : TokenStream} (hs : s.tokens = []) :
    nextFunction limit s = .ok (none, s) := by
  have hend : s.tokens.isEmpty = true := by simpa using hs
  rw [nextFunction, bind_of_ok (atEnd_run s), hend]
  rfl

/-- Functions are read one by one, and then what is behind them. -/
theorem functions_then {s : TokenStream} (hs : s.Settled) :
    ∀ (fs : List FunctionPhrase) (ts : List Token), (∀ f ∈ fs, f.Grammatical ∧ f.Within limit) →
      terminals ts = fs.flatMap FunctionPhrase.yield →
      collect (nextFunction limit) (s.push ts) =
        (collect (nextFunction limit) >>= fun gs => pure (fs.map FunctionPhrase.tree ++ gs)) s
  | [], ts, _, hts => by
    obtain rfl := terminals_eq_nil (w := ts) hts
    rw [push_nil, bind_run]
    cases collect (nextFunction limit) s <;> rfl
  | f :: fs, ts, hfs, hts => by
    obtain ⟨us, vs, rfl, hus, hvs⟩ := terminals_eq_append (w := ts) (u := f.yield) hts
    have hrest := functions_then hs fs vs (fun x hx => hfs x (List.mem_cons_of_mem _ hx)) hvs
    obtain ⟨hf, hn⟩ := hfs f (List.mem_cons_self ..)
    have hne : ((s.push vs).push us).tokens ≠ [] := by
      obtain ⟨w, ws, rfl, -⟩ := terminals_eq_cons hus
      simp
    have hnext : nextFunction limit ((s.push vs).push us) = .ok (some f.tree, s.push vs) := by
      rw [nextFunction_of_ne_nil hne]
      exact bind_of_ok (function_parses (hs.push vs) hf hn hus)
    rw [← push_push, collect_eq repeatable_nextFunction, hnext]
    simp only [bind_run, hrest]
    cases collect (nextFunction limit) s <;> rfl

/-- A lexical error behind a row of functions is what reading them fails with. -/
theorem functions_break {e : LexicalError} {fs : List FunctionPhrase} {ts : List Token} (hne : fs ≠ [])
    (hfs : ∀ f ∈ fs, f.Grammatical ∧ f.Within limit)
    (hts : terminals ts = fs.flatMap FunctionPhrase.yield) :
    collect (nextFunction limit) (push ts ⟨[], .broken e⟩) = .error (.lexical e) := by
  obtain ⟨gs, g, rfl⟩ : ∃ gs g, fs = gs ++ [g] := ⟨_, _, (List.dropLast_concat_getLast hne).symm⟩
  rw [List.flatMap_append] at hts
  obtain ⟨us, vs, rfl, hus, hvs⟩ := terminals_eq_append hts
  obtain ⟨hg, hn⟩ := hfs g (by simp)
  have hvs : terminals vs = g.yield := by simpa using hvs
  have hopen : (push vs ⟨[], .broken e⟩).tokens ≠ [] := by
    obtain ⟨w, ws, rfl, -⟩ := terminals_eq_cons hvs
    simp
  have hlast : collect (nextFunction limit) (push vs ⟨[], .broken e⟩) = .error (.lexical e) := by
    rw [collect_eq repeatable_nextFunction, nextFunction_of_ne_nil hopen, bind_run,
      function_breaks hg hn hvs]
  rw [← push_push, functions_then (settled_of_ne_nil hopen) gs us
    (fun x hx => hfs x (List.mem_append_left _ hx)) hus, bind_run, hlast]

theorem program_eq_collect {s : TokenStream} (hs : s.tokens ≠ []) :
    program limit s = (collect (nextFunction limit) >>= fun fs => pure ⟨fs⟩ : Parser Program) s := by
  rw [program, bind_of_ok (settle_run (settled_of_ne_nil hs)), bind_run, bind_run,
    collect_eq repeatable_nextFunction, nextFunction_of_ne_nil hs, bind_run]
  cases function limit s with
  | error e => rfl
  | ok fr =>
    simp only [pure_run, bind_run]
    cases collect (nextFunction limit) fr.2 <;> rfl

theorem tokens_push_ne_nil {d : ProgramPhrase} {ts : List Token} (hd : d.Grammatical)
    (hts : terminals ts = d.yield) (s : TokenStream) : (s.push ts).tokens ≠ [] := by
  obtain ⟨_ | ⟨f, fs⟩⟩ := d
  · exact absurd rfl hd.functions_ne_nil
  obtain ⟨us, vs, rfl, hus, -⟩ := terminals_eq_append (w := ts) (u := f.yield) hts
  obtain ⟨w, ws, rfl, -⟩ := terminals_eq_cons hus
  simp

/-- A row of functions is read in front of another program, and what is behind
the row is read as it would be alone. -/
theorem program_push {d : ProgramPhrase} {ts : List Token} {s : TokenStream} (hd : d.Grammatical)
    (hn : d.Within limit) (hts : terminals ts = d.yield) (hs : ∀ p, s ≠ ⟨[], .endOfInput p⟩) :
    program limit (s.push ts) =
      (program limit >>= fun q => pure ⟨d.tree.functions ++ q.functions⟩ : Parser Program) s := by
  have hfs : ∀ f ∈ d.functions, f.Grammatical ∧ f.Within limit := fun f hf =>
    ⟨hd.functions f hf, hn f hf⟩
  rw [program_eq_collect (tokens_push_ne_nil hd hts s)]
  by_cases hnil : s.tokens = []
  · obtain ⟨_, p | e⟩ := s <;> subst hnil
    · exact absurd rfl (hs p)
    · rw [bind_run, functions_break hd.functions_ne_nil hfs hts]
      rfl
  · rw [bind_run, bind_run, functions_then (settled_of_ne_nil hnil) _ _ hfs hts,
      program_eq_collect hnil, bind_run, bind_run]
    cases collect (nextFunction limit) s <;> rfl

/-- A row of functions is read as a program, to the end of the input. -/
theorem program_parses {d : ProgramPhrase} {ts : List Token} {p : Position} (hd : d.Grammatical)
    (hn : d.Within limit) (hts : terminals ts = d.yield) :
    program limit ⟨ts, .endOfInput p⟩ = .ok (d.tree, ⟨[], .endOfInput p⟩) := by
  have hfs : ∀ f ∈ d.functions, f.Grammatical ∧ f.Within limit := fun f hf =>
    ⟨hd.functions f hf, hn f hf⟩
  have hstream : (⟨ts, .endOfInput p⟩ : TokenStream) = push ts ⟨[], .endOfInput p⟩ := by simp [push]
  rw [hstream, program_eq_collect (tokens_push_ne_nil hd hts _), bind_run,
    functions_then settled_of_endOfInput _ _ hfs hts,
    bind_of_ok (collect_none repeatable_nextFunction (nextFunction_of_eq_nil rfl)), List.append_nil]
  rfl

theorem program_breaks {d : ProgramPhrase} {ts : List Token} {e : LexicalError} (hd : d.Grammatical)
    (hn : d.Within limit) (hts : terminals ts = d.yield) :
    program limit (push ts ⟨[], .broken e⟩) = .error (.lexical e) := by
  rw [program_push hd hn hts (by simp)]
  rfl

end

end Grammar
end SyntaxGraph
