/-
# How deep the trees of sources are

The limit of nesting is about levels that are open at once. The operators of a
sum, a product or a row of connectives do not open levels: they are read one
after the other, and each of them takes what is already there as its left
operand. So a long sum is a deep tree with all its depth to the left, and no
number bounds the depth of all programs that are read (`depth_unbounded`).

Steps to the left operand of such an operator are the only ones that the limit
does not bound. With these left out, a path takes at most seven steps for each
level: every other step opens a level, or leads to an expression that holds
together more tightly (`Phrase.step_le`).

Key definitions: `Element.groupsLeft`, `Node.cost`, `Element.DepthLe`.
Key theorems: `Element.depthLe_of_pieces`, `Phrase.depthLe`, `Clause.depthLe`,
`depth_unbounded`, `cost_le_of_parseSource`.
-/
import SyntaxGraph.Proofs.Grammar.Constituents
import SyntaxGraph.Proofs.Source.Concatenation
import SyntaxGraph.Proofs.Source.Spaced

namespace SyntaxGraph

/-- The element is an operator of arithmetic or a connective: any number of them can
stand in a row, and the left operand of one is all of the row in front of it. -/
def Element.groupsLeft : Element → Bool
  | expression (.arith ..) | expression (.logical ..) => true
  | _ => false

/-- What the step to the piece with the index `i` counts. -/
def Element.stepCost (x : Element) (i : Nat) : Nat :=
  if x.groupsLeft = true ∧ i = 0 then 0 else 1

/-- How many steps of a path lead elsewhere than to the left operand of an operator
that groups to the left. -/
def Node.cost : List Nat → Node → Nat
  | [], _ => 0
  | i :: path, n => n.element.stepCost i + n.children[i]?.elim 0 (cost path)

/-- No path in the tree of the element takes more than `b` steps, those to the left
operands of rows left out. -/
def Element.DepthLe (b : Nat) (x : Element) : Prop :=
  ∀ role path m, (x.node role).follow path = some m → (x.node role).cost path ≤ b

/-! ### From the pieces to the whole -/

namespace Element

variable {x : Element} {b : Nat}

theorem stepCost_le_one (x : Element) (i : Nat) : x.stepCost i ≤ 1 := by
  unfold stepCost
  split
  · exact Nat.zero_le 1
  · exact Nat.le_refl 1

/-- A path in the tree of an element is a step to a piece, and a path in the tree of
that piece. -/
theorem depthLe_of_pieces
    (h : ∀ i y, x.pieces[i]? = some y → ∃ c, y.DepthLe c ∧ x.stepCost i + c ≤ b) : x.DepthLe b := by
  intro role path m hm
  cases path with
  | nil => exact Nat.zero_le b
  | cons i path =>
    obtain ⟨child, hchild, hm⟩ := Node.follow_cons.mp hm
    have hx := Node.proper_node role x
    obtain ⟨role', y, rfl⟩ := hx.of_mem_children (List.mem_of_getElem? hchild)
    have hpiece : x.pieces[i]? = some y := by
      have helements := hx.elements_children
      rw [Node.element_node] at helements
      rw [← helements, List.getElem?_map, hchild, Option.map_some, Node.element_node]
    obtain ⟨c, hy, hle⟩ := h i y hpiece
    have hpath : (y.node role').cost path ≤ c := hy role' path m hm
    rw [Node.cost, hchild, Option.elim_some, Node.element_node]
    omega

theorem depthLe_succ (h : ∀ y ∈ x.pieces, y.DepthLe b) : x.DepthLe (b + 1) := by
  refine depthLe_of_pieces fun i y hy => ⟨b, h y (List.mem_of_getElem? hy), ?_⟩
  have := x.stepCost_le_one i
  omega

theorem DepthLe.mono {c : Nat} (h : x.DepthLe b) (hbc : b ≤ c) : x.DepthLe c :=
  fun role path m hm => Nat.le_trans (h role path m hm) hbc

end Element

/-! ### Phrases and clauses -/

theorem Precedence.rank_le (p : Precedence) : p.rank ≤ 7 := by
  cases p <;> decide

theorem Arith.rank_tighter (op : Arith) : op.precedence.tighter.rank = op.precedence.rank + 1 := by
  cases op <;> rfl

theorem Connective.rank_tighter (op : Connective) :
    op.precedence.tighter.rank = op.precedence.rank + 1 := by
  cases op <;> rfl

namespace Phrase

theorem levels_le_levelsOfAll {e : Phrase} {es : List Phrase} (he : e ∈ es) :
    e.levels ≤ levelsOfAll es :=
  (levelsOfAll_le_iff es _).mp (Nat.le_refl _) e he

theorem getElem?_pair {α : Type} {a b c : α} {i : Nat} (h : [a, b][i]? = some c) :
    i = 0 ∧ a = c ∨ i = 1 ∧ b = c := by
  match i with
  | 0 => exact .inl ⟨rfl, Option.some.inj h⟩
  | 1 => exact .inr ⟨rfl, Option.some.inj h⟩
  | i + 2 => cases h

/-- The step to an operand of a row: to the left it does not count, and to the right it
leads to a tighter phrase. -/
theorem row_step_le {x : Element} {l r e : Phrase} {p i : Nat} (hx : x.groupsLeft = true)
    (hl : p ≤ l.precedence.rank) (hr : p + 1 ≤ r.precedence.rank) (he : [l, r][i]? = some e) :
    x.stepCost i + 7 * e.levels + p ≤ 7 * max l.levels r.levels + e.precedence.rank := by
  rcases getElem?_pair he with ⟨rfl, rfl⟩ | ⟨rfl, rfl⟩
  · have hfree : x.stepCost 0 = 0 := if_pos ⟨hx, rfl⟩
    omega
  · have hone := x.stepCost_le_one 1
    omega

/-- A step that counts opens a level or leads to a tighter phrase. A level makes up
for all precedences. -/
theorem step_le {d e : Phrase} (h : d.Grammatical) (hd : ∀ f, d ≠ .parens f) {i : Nat}
    (he : d.inner[i]? = some e) :
    (Element.expression d.tree).stepCost i + 7 * e.levels + d.precedence.rank ≤
      7 * d.levels + e.precedence.rank := by
  have hone := (Element.expression d.tree).stepCost_le_one i
  cases d with
  | int | float | var => cases he
  | parens f => exact absurd rfl (hd f)
  | entry a f =>
    obtain rfl := List.mem_singleton.mp (List.mem_of_getElem? he)
    have hlevels : (entry a e).levels = e.levels + 1 := rfl
    have hrank : (entry a e).precedence.rank = 7 := rfl
    have hfits : 4 ≤ e.precedence.rank := h.1
    omega
  | call f es =>
    have hmem : e ∈ es := List.mem_of_getElem? he
    have hlevels : (call f es).levels = levelsOfAll es + 1 := rfl
    have hrank : (call f es).precedence.rank = 7 := rfl
    have hfits : 4 ≤ e.precedence.rank := ((allGrammatical_iff es).mp h e hmem).1
    have hle := levels_le_levelsOfAll hmem
    omega
  | signed sign f =>
    obtain rfl := List.mem_singleton.mp (List.mem_of_getElem? he)
    have hlevels : (signed sign e).levels = e.levels + 1 := rfl
    have hrank : (signed sign e).precedence.rank = 6 := rfl
    omega
  | not f =>
    obtain rfl := List.mem_singleton.mp (List.mem_of_getElem? he)
    have hlevels : (not e).levels = e.levels + 1 := rfl
    have hrank : (not e).precedence.rank = 2 := rfl
    omega
  | compare op l r =>
    obtain ⟨hl, hr, -⟩ := h
    have hlevels : (compare op l r).levels = max l.levels r.levels := rfl
    have hrank : (compare op l r).precedence.rank = 3 := rfl
    have hsum : 4 ≤ e.precedence.rank ∧ e.levels ≤ max l.levels r.levels := by
      rcases getElem?_pair he with ⟨-, rfl⟩ | ⟨-, rfl⟩
      · exact ⟨hl, Nat.le_max_left ..⟩
      · exact ⟨hr, Nat.le_max_right ..⟩
    omega
  | arith op l r =>
    obtain ⟨hl, hr, -⟩ := h
    have hr : op.precedence.rank + 1 ≤ r.precedence.rank := op.rank_tighter ▸ hr
    exact row_step_le rfl hl hr he
  | logical op l r =>
    obtain ⟨hl, hr, -⟩ := h
    have hr : op.precedence.rank + 1 ≤ r.precedence.rank := op.rank_tighter ▸ hr
    exact row_step_le rfl hl hr he

/-- The tree of a phrase has at most seven steps for each level, and fewer the
tighter the phrase is. -/
theorem depthLe (d : Phrase) : d.Grammatical → ∀ b, 7 * d.levels ≤ b + d.precedence.rank →
    (Element.expression d.tree).DepthLe b := by
  induction d using Phrase.induction with
  | step d ih =>
    intro hd b hb
    by_cases hparens : ∃ e, d = .parens e
    · obtain ⟨e, rfl⟩ := hparens
      refine ih e (.head _) hd b ?_
      simp only [levels, precedence, Precedence.rank] at hb
      omega
    · have hplain : ∀ e, d ≠ .parens e := fun e he => hparens ⟨e, he⟩
      refine Element.depthLe_of_pieces fun i y hy => ?_
      rw [Element.pieces, pieces_tree hplain, List.getElem?_map] at hy
      obtain ⟨e, he, rfl⟩ := Option.map_eq_some_iff.mp hy
      have hmem : e ∈ d.inner := List.mem_of_getElem? he
      have hstep := step_le hd hplain he
      have hlevel := e.one_le_levels
      have hrank := e.precedence.rank_le
      exact ⟨7 * e.levels - e.precedence.rank, ih e hmem (hd.of_mem_inner hmem) _ (by omega), by omega⟩

end Phrase

namespace Clause

theorem levels_le_levelsOfAll {c : Clause} {cs : List Clause} (hc : c ∈ cs) :
    c.levels ≤ levelsOfAll cs :=
  (levelsOfAll_le_iff cs _).mp (Nat.le_refl _) c hc

/-- A statement opens a level for the phrases in it; a target has none of its own. -/
theorem levels_of_mem_phrases {c : Clause} (h : c.Grammatical) {d : Phrase} (hd : d ∈ c.phrases) :
    d.levels + 1 ≤ c.levels ∨ d.precedence.rank = 7 ∧ d.levels ≤ c.levels := by
  have htarget : ∀ {l : Phrase}, l.IsTarget →
      l.precedence.rank = 7 ∧ l.levels ≤ l.targetLevels + 1 := by
    intro l hl
    cases l with
    | var x => exact ⟨rfl, Nat.le_refl 1⟩
    | entry a i => exact ⟨rfl, Nat.le_refl _⟩
    | _ => cases hl
  cases c with
  | print | leave | skip | block => cases hd
  | assign update l e =>
    rcases List.mem_cons.mp hd with rfl | hd
    · obtain ⟨hrank, hlevels⟩ := htarget h.1
      simp only [levels]
      omega
    · obtain rfl := List.mem_singleton.mp hd
      simp only [levels]
      omega
  | read l =>
    obtain rfl := List.mem_singleton.mp hd
    exact .inr (htarget h)
  | ifThen | ifThenElse | whileDo | write | ret =>
    obtain rfl := List.mem_singleton.mp hd
    simp only [levels]
    omega

theorem levels_of_mem_inner {c s : Clause} (hs : s ∈ c.inner) : s.levels + 1 ≤ c.levels := by
  cases c with
  | print | leave | skip | assign | read | write | ret => cases hs
  | ifThen | whileDo =>
    obtain rfl := List.mem_singleton.mp hs
    simp only [levels]
    omega
  | ifThenElse _ s t =>
    simp only [levels]
    rcases List.mem_cons.mp hs with rfl | hs
    · omega
    · obtain rfl := List.mem_singleton.mp hs
      omega
  | block cs => exact Nat.succ_le_succ (levels_le_levelsOfAll hs)

/-- The tree of a clause has at most seven steps for each level. -/
theorem depthLe (c : Clause) : c.Grammatical → (Element.statement c.tree).DepthLe (7 * c.levels) := by
  induction c using Clause.induction with
  | step c ih =>
    intro hc
    have hlevel := c.one_le_levels
    have hpieces : ∀ y ∈ (Element.statement c.tree).pieces, y.DepthLe (7 * c.levels - 1) := by
      rw [Element.pieces, pieces_tree]
      refine List.forall_mem_append.mpr ⟨List.forall_mem_map.mpr fun d hd => ?_,
        List.forall_mem_map.mpr fun s hs => ?_⟩
      · refine d.depthLe (hc.of_mem_phrases hd) _ ?_
        have hlevels := levels_of_mem_phrases hc hd
        omega
      · have hlevels := levels_of_mem_inner hs
        exact (ih s hs (hc.of_mem_inner hs)).mono (by omega)
    exact (Element.depthLe_succ hpieces).mono (by omega)

end Clause

/-! ### Programs -/

section

variable {n : Nat}

theorem DeclarationPhrase.depthLe {d : DeclarationPhrase} (hd : d.type.Grammatical)
    (hn : d.type.levels ≤ n) {x : Element} (hx : x.pieces = [.typeName d.type.tree]) :
    x.DepthLe (7 * n + 2) := by
  have htype : (Element.typeName d.type.tree).DepthLe (7 * n + 1) := by
    obtain ⟨name, base, _ | e⟩ := d
    · exact Element.depthLe_succ (List.forall_mem_nil _)
    · have he : e.levels ≤ n := hn
      refine Element.depthLe_succ (List.forall_mem_singleton.mpr ?_)
      exact e.depthLe (hd e rfl).2 _ (by omega)
  exact Element.depthLe_succ (hx ▸ List.forall_mem_singleton.mpr htype)

theorem FunctionPhrase.depthLe {f : FunctionPhrase} (hf : f.Grammatical) (hn : f.Within n) :
    (Element.function f.tree).DepthLe (7 * n + 3) := by
  have hparameters : ∀ d ∈ f.parameters, (Element.parameter d.tree).DepthLe (7 * n + 2) :=
    fun d hd => DeclarationPhrase.depthLe (hf.parameters d hd) (hn.parameters d hd) rfl
  have hdeclarations : ∀ d ∈ f.declarations, (Element.declaration d.tree).DepthLe (7 * n + 2) :=
    fun d hd => DeclarationPhrase.depthLe (hf.declarations d hd) (hn.declarations d hd) rfl
  have hbody : ∀ c ∈ f.body, (Element.statement c.tree).DepthLe (7 * n + 2) := fun c hc => by
    have hlevels := hn.body c hc
    exact (c.depthLe (hf.body c hc)).mono (by omega)
  refine Element.depthLe_succ ?_
  simpa [Element.pieces, FunctionPhrase.tree, or_imp, forall_and] using
    ⟨hparameters, hdeclarations, hbody⟩

/-- The tree of a program phrase with `n` levels open at once has at most `7 * n + 4`
steps that count. -/
theorem ProgramPhrase.depthLe {p : ProgramPhrase} (hp : p.Grammatical) (hn : p.Within n) :
    (Element.program p.tree).DepthLe (7 * n + 4) := by
  refine Element.depthLe_succ (List.forall_mem_map.mpr (List.forall_mem_map.mpr fun f hf => ?_))
  exact FunctionPhrase.depthLe (hp.functions f hf) (hn f hf)

end

/-! ### Long sums -/

open Terminal

/-- A grammatical program phrase within the limit, with spellings throughout, is read from
what it is written with. -/
theorem parseSource_spaced {d : ProgramPhrase} (hd : d.Grammatical)
    (hn : d.Within Grammar.nestingLimit) (hspelled : ∀ x ∈ d.yield, x.IsSpelled) :
    parseSource (String.ofList (spaced d.yield)) = .ok d.tree := by
  obtain ⟨ts, q, hitems, hterminals, hkinds⟩ := items_spaced hspelled
  rw [parseSource, hitems]
  exact parse_tokens hd hn hterminals hkinds rfl

/-- The sum of `n + 1` ones. -/
def Phrase.ones : Nat → Phrase
  | 0 => .int "1" 1
  | n + 1 => .arith .add (ones n) (.int "1" 1)

namespace Phrase

theorem grammatical_ones : ∀ n, (ones n).Fits .sum ∧ (ones n).Grammatical
  | 0 => ⟨by decide, rfl⟩
  | n + 1 => by
    obtain ⟨hfits, hgrammatical⟩ := grammatical_ones n
    exact ⟨Nat.le_refl _, hfits, by decide, hgrammatical, rfl⟩

/-- However long a sum is, it opens one level at a time. -/
theorem levels_ones : ∀ n, (ones n).levels = 1
  | 0 => rfl
  | n + 1 => by
    rw [ones, levels, levels_ones n]
    rfl

theorem isSpelled_ones : ∀ n, ∀ x ∈ (ones n).yield, x.IsSpelled
  | 0 => List.forall_mem_singleton.mpr (isSpelled_int (i := 1) (by decide) (by decide))
  | n + 1 => by
    have hone : ∀ x ∈ (ones 0).yield, x.IsSpelled := isSpelled_ones 0
    exact isSpelled_append (isSpelled_ones n) (by decide) hone

theorem follow_ones : ∀ n role, ∃ m,
    ((ones n).tree.node role).follow (List.replicate n 0) = some m
  | 0, _ => ⟨_, rfl⟩
  | n + 1, _ => follow_ones n .left

end Phrase

/-- A function that writes the sum of `n + 1` ones. -/
def writesOnes (n : Nat) : ProgramPhrase :=
  ⟨[⟨"f", [], [], false, [.write (.ones n)]⟩]⟩

theorem parseSource_writesOnes (n : Nat) :
    parseSource (String.ofList (spaced (writesOnes n).yield)) = .ok (writesOnes n).tree := by
  refine parseSource_spaced (ProgramPhrase.grammatical_single (Phrase.grammatical_ones n))
    (ProgramPhrase.within_single ?_) ?_
  · show (Phrase.ones n).levels + 1 ≤ Grammar.nestingLimit
    rw [Phrase.levels_ones n]
    decide
  · have hname : IsName "f" := by decide
    have hbody : ∀ x ∈ (Phrase.ones n).yield ++ [word .rParen, word .endWord], x.IsSpelled :=
      isSpelled_append (Phrase.isSpelled_ones n) (by decide)
        (isSpelled_cons (by decide) (List.forall_mem_nil _))
    have hwrite : ∀ x ∈ word .writeWord :: word .lParen ::
        ((Phrase.ones n).yield ++ [word .rParen, word .endWord]), x.IsSpelled :=
      isSpelled_cons (by decide) (isSpelled_cons (by decide) hbody)
    have hyield : (writesOnes n).yield = word .funWord :: ident "f" :: word .lParen :: word .rParen ::
        word .beginWord :: word .writeWord :: word .lParen ::
          ((Phrase.ones n).yield ++ [word .rParen, word .endWord]) := by
      simp [writesOnes, ProgramPhrase.yield, FunctionPhrase.yield, FunctionPhrase.declarationsYield,
        joined, Clause.yield, Clause.parenthesized]
    rw [hyield]
    exact isSpelled_cons (by decide) (List.forall_mem_cons.mpr ⟨isSpelled_ident hname,
      isSpelled_cons (by decide) (isSpelled_cons (by decide) (isSpelled_cons (by decide) hwrite))⟩)

/-- **No number bounds the depth of all programs that are read from sources**: a sum has
as many steps to the left as it has operators, and no level is open for them. -/
theorem depth_unbounded : ¬ ∃ bound, ∀ source p path n, parseSource source = .ok p →
    p.node.follow path = some n → path.length ≤ bound := by
  rintro ⟨bound, hbound⟩
  obtain ⟨m, hm⟩ := Phrase.follow_ones bound .expr
  -- through the function and its statement to the sum, and all the way down to its left
  have hlength := hbound _ _ (0 :: 0 :: 0 :: List.replicate bound 0) m
    (parseSource_writesOnes bound) hm
  simp only [List.length_cons, List.length_replicate] at hlength
  omega

/-- **One number bounds the depth of all programs that are read from sources, but for the
steps to the left operand of an operator of arithmetic or a connective.** -/
theorem cost_le_of_parseSource (source : String) (p : Program) (path : List Nat) (n : Node)
    (h : parseSource source = .ok p) (hpath : p.node.follow path = some n) :
    p.node.cost path ≤ 7 * Grammar.nestingLimit + 4 := by
  obtain ⟨-, d, hd, hn, rfl, -⟩ := TokenStream.exists_phrase h
  exact d.depthLe hd hn .root path n hpath

/-- The index at the end of a sum: of the six steps to it, the two along the sum do not
count. -/
theorem cost_index_of_sum : ∃ p n,
    parseSource "fun f() begin write(v[0] + 1 + 2) end" = .ok p ∧
      p.node.follow [0, 0, 0, 0, 0, 0] = some n ∧ p.node.cost [0, 0, 0, 0, 0, 0] = 4 ∧
        p.node.cost [0, 0, 0, 0, 0, 0] ≤ 7 * Grammar.nestingLimit + 4 := by
  have hparse : parseSource "fun f() begin write(v[0] + 1 + 2) end" =
      .ok ⟨[⟨"f", [], [], [.write (.arith .add (.arith .add (.entry "v" (.number (.int 0)))
        (.number (.int 1))) (.number (.int 2)))]⟩]⟩ :=
    (congrArg parse (Scanner.items_eq_itemsWithin _)).trans (by decide +kernel)
  exact ⟨_, _, hparse, rfl, by decide, cost_le_of_parseSource _ _ _ _ hparse rfl⟩

end SyntaxGraph
