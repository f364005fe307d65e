/-
# Sources one behind the other

A source that holds a program may stand on the lines in front of another source:
its functions come first, and then what the other source holds, or what is wrong
with it, as many lines further down.

The scanner goes on behind the newline (`Cursor.items_append_newline`), the
grammar behind the last function (`Grammar.program_push`), and where tokens stand
makes a difference to the place of an error only.

Key definitions: `ParseError.down`.
Key theorems: `TokenStream.parse_down`, `parseSource_append`.
-/
import SyntaxGraph.Proofs.Grammar.StreamOrder
import SyntaxGraph.Proofs.Token.NextLine
import SyntaxGraph.Tree.Same

namespace SyntaxGraph

def SyntaxError.down (n : Nat) (e : SyntaxError) : SyntaxError :=
  { e with found := e.found.map (Token.down n), position := e.position.down n }

/-- The same error, `n` lines further down. -/
def ParseError.down (n : Nat) : ParseError → ParseError
  | lexical e => lexical (e.down n)
  | grammar e => grammar (e.down n)

namespace TokenStream

def down (n : Nat) (s : TokenStream) : TokenStream where
  tokens := s.tokens.map (Token.down n)
  ending :=
    match s.ending with
    | .endOfInput p => .endOfInput (p.down n)
    | .broken e => .broken (e.down n)

theorem ofItemsAfter_down (n : Nat) (last : Position) (items : List Item) :
    ofItemsAfter (last.down n) (items.map (Item.down n)) = (ofItemsAfter last items).down n := by
  induction last, items using ofItemsAfter.induct with
  | case1 last => rfl
  | case2 last e items => rfl
  | case3 last t items ht =>
    have hkind : (t.down n).kind = .eof := ht
    rw [List.map_cons, Item.down, ofItemsAfter_eof ht, ofItemsAfter_eof hkind]
    rfl
  | case4 last t items ht ih =>
    have hkind : (t.down n).kind ≠ .eof := ht
    rw [List.map_cons, Item.down, ofItemsAfter_token ht, ofItemsAfter_token hkind]
    exact congrArg (push [t.down n]) ih

/-- The place in front counts only where no item follows. -/
theorem ofItemsAfter_of_ne_nil {items : List Item} (h : items ≠ []) (p q : Position) :
    ofItemsAfter p items = ofItemsAfter q items := by
  obtain ⟨_ | t, items, rfl⟩ := List.exists_cons_of_ne_nil h <;> rfl

theorem ofItemsAfter_append {items : List Item} (h : items ≠ []) (q : Position) :
    ∀ (ts : List Token) (p : Position), (∀ t ∈ ts, t.kind ≠ .eof) →
      ofItemsAfter p (ts.map .ok ++ items) = (ofItemsAfter q items).push ts
  | [], p, _ => ofItemsAfter_of_ne_nil h p q
  | t :: ts, p, hts => by
    obtain ⟨ht, hts⟩ := List.forall_mem_cons.mp hts
    rw [List.map_cons, List.cons_append, ofItemsAfter_token ht, ofItemsAfter_append h q ts _ hts]
    simp

theorem terminals_down (n : Nat) (ts : List Token) :
    terminals (ts.map (Token.down n)) = terminals ts := by
  simp only [terminals, List.map_map]
  rfl

theorem isBroken_down (n : Nat) (s : TokenStream) : (s.down n).ending.isBroken = s.ending.isBroken := by
  obtain ⟨ts, p | e⟩ := s <;> rfl

theorem behind_down (n k : Nat) (s : TokenStream) : (s.down n).behind k = (s.behind k).down n := by
  simp [behind, down, List.map_drop]

theorem refusal_down (n : Nat) (s : TokenStream) (x : Expectation) :
    (s.down n).refusal x = (s.refusal x).down n := by
  obtain ⟨_ | ⟨t, ts⟩, p | e⟩ := s <;> rfl

theorem down_ne_empty {s : TokenStream} (hs : ∀ p, s ≠ ⟨[], .endOfInput p⟩) {n : Nat} (p : Position) :
    s.down n ≠ ⟨[], .endOfInput p⟩ := by
  obtain ⟨_ | ⟨t, ts⟩, q | e⟩ := s
  · exact absurd rfl (hs q)
  all_goals simp [down]

/-- Further down, a stream holds the same program, or has the same error
further down. -/
theorem parse_down (limit n : Nat) (s : TokenStream) :
    (s.down n).parse limit = match s.parse limit with
      | .ok p => .ok p
      | .error e => .error (e.down n) := by
  cases h : s.parse limit with
  | ok p => exact parse_of_alike h (terminals_down n s.tokens) (isBroken_down n s)
  | error e =>
    obtain ⟨k, x, -, rfl, hrefused⟩ := exists_refusal h
    have hfront : terminals ((s.down n).tokens.take k) = terminals (s.tokens.take k) := by
      rw [down, ← List.map_take, terminals_down]
    rw [hrefused (s.down n) hfront (alike_behind (terminals_down n s.tokens) (isBroken_down n s) k _),
      behind_down, refusal_down]

/-- A program in front of another stream. -/
theorem parse_push {limit : Nat} {d : ProgramPhrase} {ts : List Token} {s : TokenStream}
    (hd : d.Grammatical) (hn : d.Within limit) (hts : terminals ts = d.yield)
    (hs : ∀ p, s ≠ ⟨[], .endOfInput p⟩) :
    (s.push ts).parse limit = match s.parse limit with
      | .ok q => .ok ⟨d.tree.functions ++ q.functions⟩
      | .error e => .error e := by
  simp only [parse, StateT.run']
  rw [Grammar.program_push hd hn hts hs, Grammar.bind_run]
  cases Grammar.program limit s <;> rfl

end TokenStream

open TokenStream

theorem Scanner.items_cases (source : String) : ∃ ts : List Token, (∀ t ∈ ts, t.kind ≠ .eof) ∧
    ((∃ e, (ofSource source).items = ts.map .ok ++ [.error e]) ∨
      ∃ p, (ofSource source).items = ts.map .ok ++ [.ok (Token.endOfInput p)]) := by
  obtain ⟨tiles, rest, last, hitems, -, hfits, -, hlast⟩ := exists_tiles source
  refine ⟨tiles.map Tile.token, fun t ht => ?_, ?_⟩
  · obtain ⟨tile, htile, rfl⟩ := List.mem_map.mp ht
    obtain ⟨front, back, hsplit⟩ := List.append_of_mem htile
    exact (hfits front tile back hsplit).kind
  · have hall : (ofSource source).items = (tiles.map Tile.token).map .ok ++ [last] := by
      rw [List.map_map]
      exact hitems
    rcases hlast with ⟨e, rfl⟩ | ⟨rfl, -⟩
    · exact .inl ⟨e, hall⟩
    · exact .inr ⟨_, hall⟩

/-- A source in which nothing is wrong may stand on the lines in front of another. -/
theorem Scanner.items_append {a : String} (b : String) (ha : ∀ e, .error e ∉ (ofSource a).items) :
    ∃ (ts : List Token) (p : Position), (∀ t ∈ ts, t.kind ≠ .eof) ∧
      (ofSource a).items = ts.map .ok ++ [.ok (Token.endOfInput p)] ∧
      (ofSource (a ++ "\n" ++ b)).items =
        ts.map .ok ++ (ofSource b).items.map (Item.down (1 + a.toList.count '\n')) := by
  have hlines : (a ++ "\n" ++ b).toList = a.toList ++ '\n' :: b.toList := by simp [String.toList_append]
  obtain ⟨ts, hts, hitems, hall⟩ := Cursor.items_append_newline b.toList ⟨.start, a.toList⟩ ha
  refine ⟨ts, _, hts, hitems, ?_⟩
  rw [Position.after_newline] at hall
  rw [ofSource, hlines]
  exact hall.trans (congrArg _ (Cursor.items_down _ ⟨.start, b.toList⟩))

/-- Where nothing is wrong with a program, nothing is wrong with its tokens. -/
theorem Scanner.no_error_of_parseSource {a : String} {p : Program} (h : parseSource a = .ok p) :
    ∀ e, .error e ∉ (ofSource a).items := by
  obtain ⟨ts, hts, ⟨e, hitems⟩ | ⟨q, hitems⟩⟩ := items_cases a
  · obtain ⟨hclosed, -⟩ := exists_phrase h
    rw [hitems, ofItems, ofItemsAfter_append (by simp) .start ts _ hts] at hclosed
    cases hclosed
  · simp [hitems]

/-- A source that is read as a program is tokens that a program phrase is written with,
and then the end of the input. -/
theorem Scanner.exists_phrase {a : String} {p : Program} (h : parseSource a = .ok p) :
    ∃ (ts : List Token) (q : Position) (d : ProgramPhrase), (∀ t ∈ ts, t.kind ≠ .eof) ∧
      (ofSource a).items = ts.map .ok ++ [.ok (Token.endOfInput q)] ∧
      d.Grammatical ∧ d.tree = p ∧ d.yield = terminals ts := by
  obtain ⟨ts, hts, ⟨e, hitems⟩ | ⟨q, hitems⟩⟩ := items_cases a
  · exact absurd (hitems ▸ by simp) (no_error_of_parseSource h e)
  · rw [parseSource, parse, hitems, TokenStream.ofItems_tokens hts rfl] at h
    obtain ⟨-, d, hd, -, htree, hyield⟩ := TokenStream.exists_phrase h
    exact ⟨ts, q, d, hts, hitems, hd, htree, hyield⟩

theorem Scanner.ofItems_ne_empty {b : String}
    (hb : ∃ x ∈ (ofSource b).items, ∀ t, x = .ok t → t.kind ≠ .eof) (p : Position) :
    ofItems (ofSource b).items ≠ ⟨[], .endOfInput p⟩ := by
  intro hempty
  obtain ⟨x, hx, hproper⟩ := hb
  obtain ⟨ts, hts, ⟨e, hitems⟩ | ⟨q, hitems⟩⟩ := items_cases b <;>
    rw [hitems, ofItems, ofItemsAfter_append (by simp) .start ts _ hts] at hempty
  · cases congrArg TokenStream.ending hempty
  · have hnil : ts = [] := by
      simpa [ofItemsAfter_eof (rfl : (Token.endOfInput q).kind = .eof)] using
        congrArg TokenStream.tokens hempty
    rw [hitems, hnil] at hx
    exact hproper _ (List.mem_singleton.mp hx) rfl

/-- **A program in front of another source on lines of its own** comes first, and
then what the other source holds. What is wrong with that, is wrong as many lines
further down. -/
theorem parseSource_append {a b : String} {p : Program} (ha : parseSource a = .ok p)
    (hb : ∃ x ∈ (Scanner.ofSource b).items, ∀ t, x = .ok t → t.kind ≠ .eof) :
    parseSource (a ++ "\n" ++ b) = match parseSource b with
      | .ok q => .ok ⟨p.functions ++ q.functions⟩
      | .error e => .error (e.down (1 + a.toList.count '\n')) := by
  obtain ⟨ts, q, hts, hfront, hall⟩ := Scanner.items_append b (Scanner.no_error_of_parseSource ha)
  -- the tokens in front are those of a program phrase
  rw [parseSource, parse, hfront, ofItems_tokens hts rfl] at ha
  obtain ⟨-, d, hd, hn, rfl, hyield⟩ := exists_phrase ha
  have hstream : ofItems (Scanner.ofSource (a ++ "\n" ++ b)).items =
      push ts ((ofItems (Scanner.ofSource b).items).down (1 + a.toList.count '\n')) := by
    have hne : (Scanner.ofSource b).items ≠ [] := by
      obtain ⟨x, hx, -⟩ := hb
      exact List.ne_nil_of_mem hx
    rw [hall, ofItems, ofItemsAfter_append (by simpa using hne) (Position.start.down _) ts _ hts,
      ofItemsAfter_down, ofItems]
  rw [parseSource, parse, hstream,
    parse_push hd hn hyield.symm (down_ne_empty (Scanner.ofItems_ne_empty hb)), parse_down, parseSource, parse]
  cases (ofItems (Scanner.ofSource b).items).parse Grammar.nestingLimit <;> rfl

/-- A comment at the end of the first source ends with its line. -/
theorem parseSource_two_lines :
    parseSource ("fun f() begin skip end // f" ++ "\n" ++ "fun 1") =
      .error (.grammar ⟨some ⟨.intLiteral, "1", ⟨2, 5⟩⟩, .token .ident .functionName, ⟨2, 5⟩⟩) := by
  have ha : parseSource "fun f() begin skip end // f" = .ok ⟨[⟨"f", [], [], [.skip]⟩]⟩ :=
    (congrArg parse (Scanner.items_eq_itemsWithin _)).trans (by decide +kernel)
  have hitems : (Scanner.ofSource "fun 1").items =
      [.ok ⟨.funWord, "fun", ⟨1, 1⟩⟩, .ok ⟨.intLiteral, "1", ⟨1, 5⟩⟩, .ok ⟨.eof, "", ⟨1, 6⟩⟩] :=
    (Scanner.items_eq_itemsWithin _).trans (by decide +kernel)
  have hb : ∃ x ∈ (Scanner.ofSource "fun 1").items, ∀ t, x = .ok t → t.kind ≠ .eof :=
    ⟨_, hitems ▸ List.mem_cons_self .., by rintro t ⟨⟩; decide⟩
  have hfails : parseSource "fun 1" = .error (.grammar
      ⟨some ⟨.intLiteral, "1", ⟨1, 5⟩⟩, .token .ident .functionName, ⟨1, 5⟩⟩) :=
    (congrArg parse hitems).trans (by rfl)
  rw [parseSource_append ha hb, hfails]
  rfl

end SyntaxGraph
