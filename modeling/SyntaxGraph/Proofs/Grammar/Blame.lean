/-
# Syntax errors blame the first wrong token

A syntax error is reported at the first token behind which no sentence of the
grammar is possible any more: the tokens before it begin a sentence, and with
it they begin none. Here the grammar is taken without the limit of nesting.

The first half comes from what the grammar of programs reads
(`Grammar.program_meets`). For the second half, a sentence that goes on with the
blamed token would be read by the grammar with enough levels, but that grammar
fails at this token just as the limited one does (`Grammar.program_mirrors`).

Key definitions: `IsSentence`, `SyntaxError.Blames`.
Key theorems: `exists_blames`.
-/
import SyntaxGraph.Proofs.Grammar.Acceptance
import SyntaxGraph.Proofs.Grammar.GrammarMirror

namespace SyntaxGraph

/-- The tokens are those of a program that keeps the rules of the grammar,
however deep it nests. -/
def IsSentence (ts : List Token) : Prop :=
  ∃ d : ProgramPhrase, d.Grammatical ∧ d.yield = terminals ts

/-- The error is about the token with the index `k`, or about the end of the
input behind all tokens, and it is the first place where something is wrong. -/
structure SyntaxError.Blames (ts : List Token) (eof : Token) (k : Nat) (e : SyntaxError) : Prop where
  found : e.found = ts[k]?
  position : e.position = (ts[k]?.getD eof).position
  /-- The reported position is that of no other token. -/
  only : ∀ j, e.found ≠ none → ts[j]?.map Token.position = some e.position → j = k
  viable : ∃ us, IsSentence (ts.take k ++ us)
  fatal : k < ts.length → ∀ us, ¬ IsSentence (ts.take (k + 1) ++ us)
  unfinished : k = ts.length → ¬ IsSentence ts

section

variable {ts : List Token} {p : Position} {e : SyntaxError}

/-- A refusal behind the tokens taken is about the next one. -/
theorem TokenStream.refusal_index {us : List Token} {r : TokenStream} {x : Expectation}
    (hs : (⟨ts, .endOfInput p⟩ : TokenStream) = r.push us) (he : r.refusal x = .grammar e) :
    us = ts.take us.length ∧ r = ⟨ts.drop us.length, .endOfInput p⟩ ∧ us.length ≤ ts.length ∧
      e = ⟨ts[us.length]?, x, (ts[us.length]?.map Token.position).getD p⟩ := by
  obtain ⟨rs, ending⟩ := r
  simp only [push, TokenStream.mk.injEq] at hs
  obtain ⟨rfl, rfl⟩ := hs
  refine ⟨by simp, by simp, by simp, ?_⟩
  cases rs with
  | nil => simpa [refusal] using he.symm
  | cons t rs => simpa [refusal] using he.symm

theorem index_unique (hnodup : (ts.map Token.position).Nodup) {i j : Nat} (hi : i ≤ ts.length)
    (hj : j ≤ ts.length) (h : ts[i]? = ts[j]?) : i = j := by
  rcases Nat.lt_or_ge i ts.length with hlt | hge
  · refine (List.getElem?_inj (by simpa using hlt) hnodup).mp ?_
    rw [List.getElem?_map, List.getElem?_map, h]
  · have hnone : ts[i]? = none := List.getElem?_eq_none hge
    have hge' := List.getElem?_eq_none_iff.mp (h.symm.trans hnone)
    omega

open Grammar

/-- The limit is the one reason to fail that more levels may remove. -/
abbrev aboutNesting (x : Expectation) : Prop :=
  ∃ n, x = .nesting n

/-- Where the limited grammar fails for another reason than its limit, the grammar
with more levels fails too, whatever is behind the token that is blamed. -/
theorem program_fails_alike {limit limit' : Nat} (hlimit : limit ≤ limit')
    (hread : ∀ t ∈ ts, t.Readable) (herr : program limit ⟨ts, .endOfInput p⟩ = .error (.grammar e))
    (hnesting : ¬ aboutNesting e.expected) :
    ∃ k, k ≤ ts.length ∧ e.found = ts[k]? ∧ ∀ r : TokenStream,
      TokenStream.Alike 1 ⟨ts.drop k, .endOfInput p⟩ r →
      program limit' (r.push (ts.take k)) = .error (r.refusal e.expected) := by
  have hmirrors : Mirrors aboutNesting (program limit) (program limit') :=
    program_mirrors hlimit (.inl ⟨limit, rfl⟩)
  have hrun := hmirrors ⟨ts, .endOfInput p⟩
  rw [herr] at hrun
  obtain ⟨x, us, r, hs, he, hunread, hx⟩ := hrun
  obtain ⟨hus, rfl, hlen, rfl⟩ := TokenStream.refusal_index hs he.symm
  refine ⟨us.length, hlen, rfl, fun r hr => ?_⟩
  have hreach : x.reach = 1 := by
    refine Decidable.byContradiction fun hne => ?_
    obtain ⟨t, ht, hbad⟩ := hunread (by cases x <;> first | rfl | exact absurd rfl hne)
    exact hbad (hread t (List.mem_of_mem_drop (List.mem_of_mem_head? ht)))
  rcases hx with hx | hx
  · exact absurd hx hnesting
  · exact hx (ts.take us.length) r (by rw [← hus]) (hreach ▸ hr)

/-- No sentence goes on, behind the tokens before the blamed one, with what is
alike with it. -/
theorem not_isSentence_append (hnodup : (ts.map Token.position).Nodup) (hread : ∀ t ∈ ts, t.Readable)
    (herr : program nestingLimit ⟨ts, .endOfInput p⟩ = .error (.grammar e))
    (hnesting : ¬ aboutNesting e.expected) {k : Nat} (hk : k ≤ ts.length) (hfound : e.found = ts[k]?)
    {rs : List Token} (hrs : TokenStream.Alike 1 ⟨ts.drop k, .endOfInput p⟩ ⟨rs, .endOfInput p⟩) :
    ¬ IsSentence (ts.take k ++ rs) := by
  intro hsentence
  obtain ⟨d, hd, hyield⟩ := hsentence
  -- with enough levels the sentence would be read, but the grammar fails at its token
  obtain ⟨n, hn⟩ := d.exists_within
  obtain ⟨j, hj, hfound', hfails⟩ :=
    program_fails_alike (Nat.le_max_left nestingLimit n) hread herr hnesting
  obtain rfl : k = j := index_unique hnodup hk hj (by rw [← hfound, hfound'])
  have hparses := program_parses (p := p) hd (hn.mono (Nat.le_max_right nestingLimit n)) hyield.symm
  have hrun := hfails ⟨rs, .endOfInput p⟩ hrs
  rw [TokenStream.push, hparses] at hrun
  cases hrun

theorem alike_getElem {k : Nat} (hk : k < ts.length) (us : List Token) :
    TokenStream.Alike 1 ⟨ts.drop k, .endOfInput p⟩ ⟨ts[k] :: us, .endOfInput p⟩ where
  front := by
    rw [List.drop_eq_getElem_cons hk]
    rfl
  ending hnone := by
    simp only [List.length_drop] at hnone
    omega

/-- At distinct positions, a token found has a position of its own. -/
theorem index_of_position (hnodup : (ts.map Token.position).Nodup) {j k : Nat} {q : Position}
    (hk : k < ts.length) (hq : ts[k].position = q) (hj : ts[j]?.map Token.position = some q) :
    j = k := by
  have hj' : (ts.map Token.position)[j]? = some q := by rw [List.getElem?_map, hj]
  have hlt := (List.getElem?_eq_some_iff.mp hj').1
  refine (List.getElem?_inj hlt hnodup).mp ?_
  rw [hj', List.getElem?_map, List.getElem?_eq_getElem hk, Option.map_some, hq]

end

open Grammar in
/-- **Syntax errors are reported at the earliest token and blame the right one.**
When the parser fails for another reason than its limit of nesting on tokens at
distinct positions whose literals read as numbers, the error is about one
certain token or the end of the input: what is before it begins a sentence, and
no sentence goes on with it. -/
theorem exists_blames (ts : List Token) (eof : Token) (e : SyntaxError)
    (hts : ∀ t ∈ ts, t.kind ≠ .eof) (heof : eof.kind = .eof)
    (hnodup : (ts.map Token.position).Nodup) (hread : ∀ t ∈ ts, t.Readable)
    (herr : parse (ts.map .ok ++ [.ok eof]) = .error (.grammar e))
    (hnesting : ∀ n, e.expected ≠ .nesting n) : ∃ k ≤ ts.length, e.Blames ts eof k := by
  rw [parse, TokenStream.ofItems_tokens hts heof, TokenStream.parse_eq_error] at herr
  have hne : ¬ aboutNesting e.expected := fun h => h.elim hnesting
  -- the tokens taken, and the sentence that they begin
  have hmeets := program_meets nestingLimit ⟨ts, .endOfInput eof.position⟩
  rw [herr] at hmeets
  obtain ⟨k, hk, hfound, -⟩ := program_fails_alike (Nat.le_refl _) hread herr hne
  rcases hmeets with ⟨t, ht, hbad⟩ | ⟨us, r, hs, he, w, d, hyield, hd⟩
  · exact absurd (hread t (List.mem_of_getElem? (hfound.symm.trans ht))) hbad
  obtain ⟨hus, rfl, hlen, hposition⟩ := TokenStream.refusal_index hs he
  obtain rfl : us.length = k :=
    index_unique hnodup hlen hk (by rw [← hfound, hposition])
  refine ⟨us.length, hk, hfound, ?_, fun j hsome hj => ?_, ?_, fun hlt vs => ?_, fun hend => ?_⟩
  · rw [hposition]
    cases hget : ts[us.length]? <;> simp
  · have hlt : us.length < ts.length := by
      refine Nat.lt_of_not_le fun hge => hsome ?_
      rw [hfound, List.getElem?_eq_none hge]
    refine index_of_position hnodup hlt ?_ hj
    rw [hposition, List.getElem?_eq_getElem hlt]
    rfl
  · refine ⟨w.map Terminal.token, d, hd, ?_⟩
    rw [hyield, hus]
    simp [terminals, Function.comp_def]
  · have hsplit : ts.take (us.length + 1) ++ vs = ts.take us.length ++ ts[us.length] :: vs := by
      rw [List.take_succ_eq_append_getElem hlt, List.append_assoc]
      rfl
    rw [hsplit]
    exact not_isSentence_append hnodup hread herr hne hk hfound (alike_getElem hlt vs)
  · have hnone : TokenStream.Alike 1 ⟨ts.drop us.length, .endOfInput eof.position⟩
        ⟨[], .endOfInput eof.position⟩ := ⟨by simp [hend], fun _ => rfl⟩
    have hno := not_isSentence_append hnodup hread herr hne hk hfound hnone
    rwa [List.append_nil, hend, List.take_length] at hno

/-- A loop over `a < b < c`. -/
def comparisonChain : List Token :=
  [⟨.funWord, "fun", ⟨1, 1⟩⟩, ⟨.ident, "f", ⟨1, 5⟩⟩, ⟨.lParen, "(", ⟨1, 6⟩⟩, ⟨.rParen, ")", ⟨1, 7⟩⟩,
    ⟨.beginWord, "begin", ⟨2, 1⟩⟩, ⟨.whileWord, "while", ⟨2, 7⟩⟩, ⟨.ident, "a", ⟨2, 13⟩⟩,
    ⟨.lt, "<", ⟨2, 15⟩⟩, ⟨.ident, "b", ⟨2, 17⟩⟩, ⟨.lt, "<", ⟨2, 19⟩⟩, ⟨.ident, "c", ⟨2, 21⟩⟩,
    ⟨.doWord, "do", ⟨2, 23⟩⟩, ⟨.skipWord, "skip", ⟨2, 26⟩⟩, ⟨.endWord, "end", ⟨3, 1⟩⟩]

/-- Comparisons do not chain: the second one is to blame. -/
theorem comparisonChain_blames : ∃ k ≤ comparisonChain.length,
    SyntaxError.Blames comparisonChain ⟨.eof, "", ⟨3, 4⟩⟩ k
      ⟨some ⟨.lt, "<", ⟨2, 19⟩⟩, .comparisonEnd, ⟨2, 19⟩⟩ :=
  exists_blames comparisonChain _ _ (by decide) rfl (by decide)
    (by simp [comparisonChain, Token.Readable]) (by rfl) (by simp)

end SyntaxGraph
