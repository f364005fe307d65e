/-
# The language of the parser

The parser accepts the rows of tokens that a grammatical program phrase within
the nesting limit is written with, and builds the tree of that phrase.

Key theorems: `parse_eq_ok_iff`, `ProgramPhrase.tree_eq_of_yield_eq`.
-/
import SyntaxGraph.Proofs.Grammar.ProgramReading

namespace SyntaxGraph

theorem TokenStream.ofItems_tokens {ts : List Token} {eof : Token} (hts : ∀ t ∈ ts, t.kind ≠ .eof)
    (heof : eof.kind = .eof) :
    ofItems (ts.map .ok ++ [.ok eof]) = ⟨ts, .endOfInput eof.position⟩ := by
  have hafter : ∀ last, ofItemsAfter last (ts.map .ok ++ [.ok eof]) =
      ⟨ts, .endOfInput eof.position⟩ := by
    induction ts with
    | nil => simp [ofItemsAfter, heof]
    | cons t ts ih =>
      intro last
      have ht : t.kind ≠ .eof := hts t (List.mem_cons_self ..)
      simp [ofItemsAfter, ht, ih (fun u hu => hts u (List.mem_cons_of_mem _ hu)), cons]
  exact hafter .start

theorem TokenStream.parse_eq_ok {limit : Nat} {s : TokenStream} {p : Program} :
    s.parse limit = .ok p ↔ ∃ r, Grammar.program limit s = .ok (p, r) := by
  simp only [TokenStream.parse, StateT.run']
  cases Grammar.program limit s with
  | error e => simp [Functor.map, Except.map]
  | ok pr => simp [Functor.map, Except.map, Prod.ext_iff]

theorem TokenStream.parse_eq_error {limit : Nat} {s : TokenStream} {e : ParseError} :
    s.parse limit = .error e ↔ Grammar.program limit s = .error e := by
  simp only [TokenStream.parse, StateT.run']
  cases Grammar.program limit s with
  | error e => simp [Functor.map, Except.map]
  | ok pr => simp [Functor.map, Except.map]

/-- A grammatical program phrase within the limit is read from tokens that it is
written with. -/
theorem parse_tokens {d : ProgramPhrase} {ts : List Token} {eof : Token} (hd : d.Grammatical)
    (hn : d.Within Grammar.nestingLimit) (hterminals : terminals ts = d.yield)
    (hts : ∀ t ∈ ts, t.kind ≠ .eof) (heof : eof.kind = .eof) :
    parse (ts.map .ok ++ [.ok eof]) = .ok d.tree := by
  rw [parse, TokenStream.ofItems_tokens hts heof, TokenStream.parse_eq_ok]
  exact ⟨_, Grammar.program_parses hd hn hterminals⟩

/-- **The grammar is unambiguous**: a row of terminals is a program phrase for
one program only. -/
theorem ProgramPhrase.tree_eq_of_yield_eq {d d' : ProgramPhrase} (hd : d.Grammatical)
    (hd' : d'.Grammatical) (h : d.yield = d'.yield) : d.tree = d'.tree := by
  obtain ⟨m, hm⟩ := d.exists_within
  obtain ⟨n, hn⟩ := d'.exists_within
  have hts : terminals (d.yield.map Terminal.token) = d.yield := by simp [terminals, Function.comp_def]
  have hrun := Grammar.program_parses (p := .start) hd (hm.mono (Nat.le_max_left m n)) hts
  have hrun' := Grammar.program_parses (p := .start) hd' (hn.mono (Nat.le_max_right m n)) (hts.trans h)
  rw [hrun] at hrun'
  simp only [Except.ok.injEq, Prod.mk.injEq] at hrun'
  exact hrun'.1

open Grammar in
/-- **The parser accepts its grammar and builds the trees of the derivations**:
it reads `p` from tokens exactly if they are what a grammatical program phrase
for `p` is written with that has no more levels of nesting open at once than
the limit. -/
theorem parse_eq_ok_iff (ts : List Token) (eof : Token) (p : Program)
    (hts : ∀ t ∈ ts, t.kind ≠ .eof) (heof : eof.kind = .eof) :
    parse (ts.map .ok ++ [.ok eof]) = .ok p ↔
      ∃ d : ProgramPhrase, d.Grammatical ∧ d.Within nestingLimit ∧ d.tree = p ∧
        d.yield = terminals ts := by
  rw [parse, TokenStream.ofItems_tokens hts heof, TokenStream.parse_eq_ok]
  constructor
  · rintro ⟨r, hrun⟩
    have hmeets := program_meets nestingLimit ⟨ts, .endOfInput eof.position⟩
    rw [hrun] at hmeets
    obtain ⟨us, hus, d, htree, hyield, hd, hn, hend⟩ := hmeets
    have htokens : us = ts := by
      have := congrArg TokenStream.tokens hus
      simpa [hend] using this.symm
    exact ⟨d, hd, hn, htree, htokens ▸ hyield⟩
  · rintro ⟨d, hd, hn, rfl, hyield⟩
    exact ⟨_, program_parses hd hn hyield.symm⟩

open Grammar in
/-- A loop over `not a or b`, where the operand of `not` is the whole condition
behind it. -/
theorem parse_while_not :
    parse ([⟨.funWord, "fun", ⟨1, 1⟩⟩, ⟨.ident, "f", ⟨1, 5⟩⟩, ⟨.lParen, "(", ⟨1, 6⟩⟩, ⟨.rParen, ")", ⟨1, 7⟩⟩,
        ⟨.beginWord, "begin", ⟨2, 1⟩⟩, ⟨.whileWord, "while", ⟨2, 7⟩⟩, ⟨.notWord, "not", ⟨2, 13⟩⟩,
        ⟨.ident, "a", ⟨2, 17⟩⟩, ⟨.orWord, "or", ⟨2, 19⟩⟩, ⟨.ident, "b", ⟨2, 22⟩⟩, ⟨.doWord, "do", ⟨2, 24⟩⟩,
        ⟨.skipWord, "skip", ⟨2, 27⟩⟩, ⟨.endWord, "end", ⟨3, 1⟩⟩].map .ok ++ [.ok ⟨.eof, "", ⟨3, 4⟩⟩]) =
      .ok ⟨[⟨"f", [], [], [.whileDo (.not (.logical .or (.var "a") (.var "b"))) .skip]⟩]⟩ := by
  let condition : Phrase := .not (.logical .or (.var "a") (.var "b"))
  have hcondition : condition.Grammatical := ⟨by decide, by decide, rfl, trivial, trivial⟩
  have hbody : ∀ c ∈ [Clause.whileDo condition .skip], c.Grammatical ∧ c.levels ≤ nestingLimit := by
    simpa using ⟨⟨hcondition, trivial⟩, by decide⟩
  refine (parse_eq_ok_iff _ _ _ (by decide) rfl).mpr
    ⟨⟨[⟨"f", [], [], false, [.whileDo condition .skip]⟩]⟩, ⟨by simp, ?_⟩, ?_, rfl, rfl⟩
  · simp only [List.mem_singleton, forall_eq]
    exact ⟨by simp, by simp, nofun, by simp, fun c hc => (hbody c hc).1⟩
  · simp only [ProgramPhrase.Within, List.mem_singleton, forall_eq]
    exact ⟨by simp, by simp, fun c hc => (hbody c hc).2⟩

end SyntaxGraph
