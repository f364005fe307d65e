/-
# What the grammar of programs reads

The grammar of programs reads functions that keep the rules, to the end of the
stream. Where it fails, what it has taken begins such a program.

Key definitions: `Grammar.ReadsDeclaration`, `Grammar.IsFunction`.
Key theorems: `Grammar.declarations_meets`, `Grammar.function_meets`,
`Grammar.program_meets`.
-/
import SyntaxGraph.Proofs.Grammar.StmtVerdict

namespace SyntaxGraph
namespace Grammar

open TokenStream

/-! ### Declarations -/

section

variable (limit : Nat)

/-- The type is read with at most `limit` levels. -/
theorem typeName_meets : Meets (typeName limit)
    (fun a w _ => ∃ t : TypePhrase, t.tree = a ∧ t.yield = w ∧ t.Grammatical ∧ t.levels ≤ limit)
    (fun w => ∃ t : TypePhrase, t.yield = w ∧ t.Grammatical) := by
  intro s
  refine passes_choose_bind (fun t base r hk _ => ?_) fun _ =>
    passes_unexpected ⟨_, ⟨.int, none⟩, rfl, nofun⟩
  rw [baseTypeOf_eq_some] at hk
  rw [Token.terminal_of_kind (k := base.kind) (by cases base <;> rfl) hk]
  have hsized : ∀ e : Phrase, e.Fits .sum → e.Grammatical →
      TypePhrase.Grammatical ⟨base, some e⟩ := by
    rintro e hfits he _ ⟨⟩
    exact ⟨hfits, he⟩
  refine passes_accept_bind rfl (fun r _ => (expression_meets (sound_level limit limit) r).bind ?_ ?_)
    fun _ => passes_pure ⟨⟨base, none⟩, rfl, rfl, nofun, Nat.zero_le limit⟩
  · intro w hw
    obtain ⟨e, rfl, hfits, he⟩ := hw
    exact ⟨[.word .rBracket], ⟨base, some e⟩, by simp [TypePhrase.yield], hsized e hfits he⟩
  · intro a w r hread
    obtain ⟨e, rfl, rfl, he, -⟩ := hread
    refine passes_expect_bind rfl ⟨[.word .rBracket], ⟨base, some e⟩, by simp [TypePhrase.yield],
      hsized e he.fits he.grammatical⟩ fun _ r => passes_pure ?_
    exact ⟨⟨base, some e⟩, rfl, by simp [TypePhrase.yield], hsized e he.fits he.grammatical, he.levels⟩

/-- The declaration is read with at most `limit` levels. -/
def ReadsDeclaration : Reads Declaration := fun a w _ =>
  ∃ d : DeclarationPhrase, d.tree = a ∧ d.yield = w ∧ d.type.Grammatical ∧ d.type.levels ≤ limit

/-- The word is a declaration. -/
def IsDeclaration (w : List Terminal) : Prop :=
  ∃ d : DeclarationPhrase, d.yield = w ∧ d.type.Grammatical

/-- Every name starts a declaration. -/
theorem isDeclaration_ident (x : String) :
    IsDeclaration [.ident x, .word .colon, .word .intWord] :=
  ⟨⟨x, .int, none⟩, rfl, nofun⟩

theorem declaration_meets (name colon : Place) :
    Meets (declaration limit name colon) (ReadsDeclaration limit) IsDeclaration := by
  intro s
  refine passes_expectToken_bind ⟨_, isDeclaration_ident "x"⟩ fun t r ht => ?_
  rw [Token.terminal_ident ht]
  refine passes_expect_bind rfl ⟨_, isDeclaration_ident t.text⟩ fun _ r => ?_
  refine (typeName_meets limit r).bind ?_ ?_
  · intro w hw
    obtain ⟨u, rfl, hu⟩ := hw
    exact ⟨[], ⟨t.text, u⟩, by simp [DeclarationPhrase.yield], hu⟩
  · intro a w r hread
    obtain ⟨u, rfl, rfl, hu, hn⟩ := hread
    exact passes_pure ⟨⟨t.text, u⟩, rfl, by simp [DeclarationPhrase.yield], hu, hn⟩

/-- Declarations are read from words with a separator in between. -/
def ReadsDeclarations (separator : Token.Kind) : Reads (List Declaration) := fun as w _ =>
  ∃ ds : List DeclarationPhrase, ds.map DeclarationPhrase.tree = as ∧
    joined separator (ds.map DeclarationPhrase.yield) = w ∧
    ∀ d ∈ ds, d.type.Grammatical ∧ d.type.levels ≤ limit

/-- The word is declarations with a separator in between. -/
def IsDeclarations (separator : Token.Kind) (w : List Terminal) : Prop :=
  ∃ ds : List DeclarationPhrase, joined separator (ds.map DeclarationPhrase.yield) = w ∧
    ∀ d ∈ ds, d.type.Grammatical

theorem parameters_meets :
    Meets (parameters limit) (ReadsDeclarations limit .comma) (IsDeclarations .comma) := by
  intro s
  refine passes_peek_bind ?_
  split
  · exact passes_pure ⟨[], rfl, rfl, by simp⟩
  · have hitem : Meets (declaration limit .parameterName .parameterColon)
        (fun a w _ => ∃ d : DeclarationPhrase, d.tree = a ∧ d.yield = w ∧
          d.type.Grammatical ∧ d.type.levels ≤ limit)
        (fun w => ∃ d : DeclarationPhrase, d.yield = w ∧ d.type.Grammatical) :=
      declaration_meets limit _ _
    refine (separated_meets rfl (fun d hd => hd.1) hitem s).imp ?_ ?_
    · intro as w r hread
      obtain ⟨ds, -, has, hw, hds⟩ := hread
      exact ⟨ds, has, hw, hds⟩
    · intro w hw
      obtain ⟨ds, -, hw, hds⟩ := hw
      exact ⟨[], ds, by simpa using hw, hds⟩

theorem nextDeclaration_meets : Meets (nextDeclaration limit)
    (fun a w s => match a with
      | some d => ReadsDeclaration limit d w s
      | none => w = []) IsDeclaration := by
  intro s
  refine passes_peek_bind ?_
  split
  · refine (declaration_meets limit _ _ s).bind (fun w hw => ⟨[], by simpa using hw⟩) ?_
    exact fun a w r ha => passes_pure (by simpa using ha)
  · exact passes_pure rfl

/-- Local declarations are read, perhaps with a semicolon behind the last. -/
theorem declarations_meets : Meets (declarations limit)
    (fun as w _ => ∃ ds semicolon, ds.map DeclarationPhrase.tree = as ∧
      FunctionPhrase.declarationsYield ds semicolon = w ∧ (semicolon = true → ds ≠ []) ∧
      ∀ d ∈ ds, d.type.Grammatical ∧ d.type.levels ≤ limit)
    (fun w => ∃ ds semicolon, FunctionPhrase.declarationsYield ds semicolon = w ∧
      (semicolon = true → ds ≠ []) ∧ ∀ d ∈ ds, d.type.Grammatical) := by
  intro s
  refine (nextDeclaration_meets limit s).bind ?_ ?_
  · intro w hw
    obtain ⟨d, rfl, hd⟩ := hw
    exact ⟨[], [d], false, by simp [FunctionPhrase.declarationsYield, joined], by simp,
      by simpa using hd⟩
  rintro (_ | a) w r ha
  · exact passes_pure ⟨[], false, rfl, by simp [FunctionPhrase.declarationsYield, joined, ha],
      by simp, by simp⟩
  obtain ⟨d, rfl, rfl, hd⟩ := ha
  -- collected so far: the declarations behind the first, and no semicolon behind the last
  let I : Reads (List Declaration) := fun as v _ => ∃ ds : List DeclarationPhrase,
    ds.map DeclarationPhrase.tree = as ∧
      joined .semicolon ((d :: ds).map DeclarationPhrase.yield) = d.yield ++ v ∧
      ∀ x ∈ d :: ds, x.type.Grammatical ∧ x.type.levels ≤ limit
  have hI : I [] [] r := ⟨[], rfl, by simp [joined], by simpa using hd⟩
  refine (passes_collect (fun as v _ => ∃ ds semicolon, ds.map DeclarationPhrase.tree = as ∧
      FunctionPhrase.declarationsYield (d :: ds) semicolon = d.yield ++ v ∧
      ∀ x ∈ d :: ds, x.type.Grammatical ∧ x.type.levels ≤ limit)
    (fun v => ∃ ds semicolon, FunctionPhrase.declarationsYield ds semicolon = d.yield ++ v ∧
      (semicolon = true → ds ≠ []) ∧ ∀ d ∈ ds, d.type.Grammatical)
    I (repeatable_accept (nextDeclaration_meets limit).forward) ?_ r [] [] hI).bind ?_ ?_
  · intro as v s hread
    obtain ⟨ds, rfl, hv, hds⟩ := hread
    refine passes_accept_bind rfl (fun r _ => (nextDeclaration_meets limit r).imp ?_ ?_) fun _ => ?_
    · rintro (_ | a) w r' ha
      · obtain rfl : w = [] := ha
        exact ⟨ds, true, rfl, by rw [FunctionPhrase.declarationsYield, hv]; simp, hds⟩
      · obtain ⟨d', rfl, rfl, hd'⟩ := ha
        refine ⟨ds ++ [d'], by simp, ?_, ?_⟩
        · rw [← List.cons_append, List.map_append, List.map_singleton, joined_concat _ (by simp), hv]
          simp
        · exact List.forall_mem_append.mpr ⟨hds, by simpa using hd'⟩
    · intro w hw
      obtain ⟨d', rfl, hd'⟩ := hw
      refine ⟨[], d :: ds ++ [d'], false, ?_, by simp, ?_⟩
      · rw [FunctionPhrase.declarationsYield, List.map_append, List.map_singleton,
          joined_concat _ (by simp), hv]
        simp
      · exact List.forall_mem_append.mpr ⟨fun x hx => (hds x hx).1, by simpa using hd'⟩
    · exact passes_pure ⟨ds, false, rfl, by simpa [FunctionPhrase.declarationsYield] using hv, hds⟩
  · exact fun w hw => ⟨[], by simpa using hw⟩
  · intro as v r' hread
    obtain ⟨ds, semicolon, rfl, hv, hds⟩ := hread
    exact passes_pure ⟨d :: ds, semicolon, rfl, by simpa using hv, by simp, hds⟩

/-! ### Functions and programs -/

/-- The word is a function. -/
def IsFunction (w : List Terminal) : Prop :=
  ∃ f : FunctionPhrase, f.yield = w ∧ f.Grammatical

/-- The parts of a function, each of which may be the last that is known. -/
theorem isFunction (name : String) (semicolon : Bool) {ps ds : List DeclarationPhrase}
    {body : List Clause} (hps : ∀ d ∈ ps, d.type.Grammatical) (hds : ∀ d ∈ ds, d.type.Grammatical)
    (hsemicolon : semicolon = true → ds ≠ []) (hne : body ≠ []) (hbody : ∀ c ∈ body, c.Grammatical) :
    IsFunction (.word .funWord :: .ident name :: .word .lParen ::
      (joined .comma (ps.map DeclarationPhrase.yield) ++ .word .rParen ::
        (FunctionPhrase.declarationsYield ds semicolon ++ .word .beginWord ::
          (joined .semicolon (body.map Clause.yield) ++ [.word .endWord])))) :=
  ⟨⟨name, ps, ds, semicolon, body⟩, rfl, hps, hds, hsemicolon, hne, hbody⟩

/-- A function is read with at most `limit` levels. -/
theorem function_meets : Meets (function limit)
    (fun a w _ => ∃ f : FunctionPhrase, f.tree = a ∧ f.yield = w ∧ f.Grammatical ∧ f.Within limit)
    IsFunction := by
  intro s
  have hnone : ∀ d ∈ ([] : List DeclarationPhrase), d.type.Grammatical := by simp
  have hskip : ∀ c ∈ [Clause.skip], c.Grammatical := by simp [Clause.Grammatical]
  have hstart : ∀ name, _ := fun name =>
    isFunction name false hnone hnone nofun (by simp) hskip
  refine passes_expect_bind rfl ⟨_, hstart "f"⟩ fun _ r => ?_
  refine passes_expectToken_bind ⟨_, hstart "f"⟩ fun t r ht => ?_
  rw [Token.terminal_ident ht]
  refine passes_expect_bind rfl ⟨_, hstart t.text⟩ fun _ r => ?_
  refine (parameters_meets limit r).bind ?_ ?_
  · intro w hw
    obtain ⟨ps, rfl, hps⟩ := hw
    exact ⟨_, isFunction t.text false hps hnone nofun (by simp) hskip⟩
  intro ps w r hread
  obtain ⟨ps, rfl, rfl, hps⟩ := hread
  have hpsg : ∀ d ∈ ps, d.type.Grammatical := fun d hd => (hps d hd).1
  refine passes_expect_bind rfl ⟨_, isFunction t.text false hpsg hnone nofun (by simp)
    hskip⟩ fun _ r => ?_
  refine (declarations_meets limit r).bind ?_ ?_
  · intro w hw
    obtain ⟨ds, semicolon, rfl, hsemicolon, hds⟩ := hw
    exact ⟨_, isFunction t.text semicolon hpsg hds hsemicolon (by simp) hskip⟩
  intro ds w r hread
  obtain ⟨ds, semicolon, rfl, rfl, hsemicolon, hds⟩ := hread
  have hdsg : ∀ d ∈ ds, d.type.Grammatical := fun d hd => (hds d hd).1
  refine passes_expect_bind rfl
    ⟨_, isFunction t.text semicolon hpsg hdsg hsemicolon (by simp) hskip⟩ fun _ r => ?_
  refine (statements_meets (statement_meets limit limit) r).bind ?_ ?_
  · intro w hw
    obtain ⟨body, hne, rfl, hbody⟩ := hw
    exact ⟨_, isFunction t.text semicolon hpsg hdsg hsemicolon hne hbody⟩
  intro body w r hread
  obtain ⟨body, hne, rfl, rfl, hbody⟩ := hread
  have hbodyg : ∀ c ∈ body, c.Grammatical := fun c hc => (hbody c hc).1
  refine passes_accept_bind rfl (fun r _ => passes_pure ?_) fun _ =>
    passes_unexpected ⟨_, isFunction t.text semicolon hpsg hdsg hsemicolon hne hbodyg⟩
  exact ⟨⟨t.text, ps, ds, semicolon, body⟩, rfl, by simp [FunctionPhrase.yield],
    ⟨hpsg, hdsg, hsemicolon, hne, hbodyg⟩,
    ⟨fun d hd => (hps d hd).2, fun d hd => (hds d hd).2, fun c hc => (hbody c hc).2⟩⟩

/-- The step from one function to the next takes tokens. -/
theorem repeatable_function : Repeatable (α := Function)
    (do if ← atEnd then return none else return some (← function limit)) where
  idle ending := rfl
  takes {s r a} h := by
    rw [bind_of_ok (atEnd_run s)] at h
    cases hend : s.tokens.isEmpty with
    | true => simp [hend, pure_run] at h
    | false =>
      have hf := function_meets limit s
      simp only [hend, Bool.false_eq_true, if_false, bind_run] at h
      cases hrun : function limit s with
      | error e => simp [hrun] at h
      | ok ar =>
        rw [hrun] at h hf
        obtain ⟨ts, rfl, f, -, hyield, -⟩ := hf
        obtain ⟨-, rfl⟩ : some ar.1 = some a ∧ ar.2 = r := by simpa [pure_run] using h
        have hne : ts ≠ [] := by
          rintro rfl
          simp [FunctionPhrase.yield] at hyield
        simpa using List.length_pos_iff.mpr hne

/-- **A program is read to the end of the stream**, with at most `limit` levels. -/
theorem program_meets : Meets (program limit)
    (fun p w s => ∃ d : ProgramPhrase, d.tree = p ∧ d.yield = w ∧ d.Grammatical ∧ d.Within limit ∧
      s.tokens = [])
    (fun w => ∃ d : ProgramPhrase, d.yield = w ∧ d.Grammatical) := by
  intro s
  refine passes_settle_bind ((function_meets limit s).bind ?_ ?_)
  · intro w hw
    obtain ⟨f, rfl, hf⟩ := hw
    exact ⟨[], ⟨[f]⟩, by simp [ProgramPhrase.yield], by simp, by simpa using hf⟩
  intro first w r hread
  obtain ⟨f, rfl, rfl, hf, hn⟩ := hread
  -- collected so far: the functions behind the first
  let I : Reads (List Function) := fun as v _ => ∃ fs : List FunctionPhrase,
    fs.map FunctionPhrase.tree = as ∧ fs.flatMap FunctionPhrase.yield = v ∧
      ∀ x ∈ f :: fs, x.Grammatical ∧ x.Within limit
  have hI : I [] [] r := ⟨[], rfl, rfl, by simpa using ⟨hf, hn⟩⟩
  refine (passes_collect (fun as v s => I as v s ∧ s.tokens = [])
    (fun v => ∃ d : ProgramPhrase, d.yield = f.yield ++ v ∧ d.Grammatical) I
    (repeatable_function limit) ?_ r [] [] hI).bind ?_ ?_
  · intro as v s hread
    obtain ⟨fs, rfl, rfl, hfs⟩ := hread
    rw [bind_of_ok (atEnd_run s)]
    split
    · rename_i hend
      exact passes_pure ⟨⟨fs, rfl, by simp, hfs⟩, List.isEmpty_iff.mp hend⟩
    · refine (function_meets limit s).bind ?_ ?_
      · intro w hw
        obtain ⟨g, rfl, hg⟩ := hw
        refine ⟨[], ⟨f :: fs ++ [g]⟩, by simp [ProgramPhrase.yield], by simp, ?_⟩
        exact List.forall_mem_append.mpr ⟨fun x hx => (hfs x hx).1, by simpa using hg⟩
      · intro a w r' hread
        obtain ⟨g, rfl, rfl, hg⟩ := hread
        refine passes_pure ⟨fs ++ [g], by simp, by simp, ?_⟩
        exact List.forall_mem_append.mpr ⟨hfs, by simpa using hg⟩
  · exact fun w hw => ⟨[], by simpa using hw⟩
  · intro as v r' hread
    obtain ⟨⟨fs, rfl, rfl, hfs⟩, hend⟩ := hread
    exact passes_pure ⟨⟨f :: fs⟩, rfl, by simp [ProgramPhrase.yield],
      ⟨by simp, fun x hx => (hfs x hx).1⟩, fun x hx => (hfs x hx).2, hend⟩

end

end Grammar
end SyntaxGraph
