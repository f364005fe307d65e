/-
# What a grammatical program is made of

The constituents of a phrase are the phrases right below it. They are
grammatical if the phrase is, and written with some of its terminals. Their
trees are the pieces of its tree, except that parentheses add nothing to a tree.

So what every construct makes sure of for its own element, when it is
grammatical and its terminals are of some sort, holds throughout the program.

Key definitions: `Phrase.inner`, `Clause.inner`, `Grammar.Ensures`.
Key theorems: `Phrase.induction`, `Grammar.Ensures.throughout`.
-/
import SyntaxGraph.Proofs.Grammar.Clause
import SyntaxGraph.Proofs.Tree.Throughout

namespace SyntaxGraph

theorem mem_joined {k : Token.Kind} {w : List Terminal} {ws : List (List Terminal)} (hw : w ∈ ws) :
    w ⊆ joined k ws := by
  intro x hx
  cases ws with
  | nil => cases hw
  | cons v ws =>
    rcases List.mem_cons.mp hw with rfl | hw
    · exact List.mem_append_left _ hx
    · exact List.mem_append_right _ (List.mem_flatMap.mpr ⟨w, hw, List.mem_cons_of_mem _ hx⟩)

/-! ### Phrases -/

namespace Phrase

/-- The phrases right below a phrase. -/
def inner : Phrase → List Phrase
  | int .. | float .. | var _ => []
  | entry _ e | parens e | signed _ e | not e => [e]
  | arith _ l r | compare _ l r | logical _ l r => [l, r]
  | call _ es => es

variable {d e : Phrase}

theorem Grammatical.of_mem_inner (h : d.Grammatical) (he : e ∈ d.inner) : e.Grammatical := by
  cases d with
  | int | float | var => cases he
  | parens f | not f =>
    obtain rfl := List.mem_singleton.mp he
    exact h
  | entry _ f | signed _ f =>
    obtain rfl := List.mem_singleton.mp he
    exact h.2
  | arith _ l r | compare _ l r =>
    obtain ⟨-, -, hl, hr⟩ := h
    exact List.forall_mem_cons.mpr ⟨hl, List.forall_mem_singleton.mpr hr⟩ e he
  | logical _ l r =>
    obtain ⟨-, -, -, hl, hr⟩ := h
    exact List.forall_mem_cons.mpr ⟨hl, List.forall_mem_singleton.mpr hr⟩ e he
  | call _ es => exact ((allGrammatical_iff es).mp h e he).2

theorem yield_subset (he : e ∈ d.inner) : e.yield ⊆ d.yield := by
  cases d with
  | int | float | var => cases he
  | call _ es =>
    have hjoined : e.yield ⊆ joined .comma (yields es) := by
      rw [yields_eq_map]
      exact mem_joined (List.mem_map_of_mem he)
    exact fun x hx =>
      List.mem_cons_of_mem _ (List.mem_cons_of_mem _ (List.mem_append_left _ (hjoined hx)))
  | _ =>
    intro x hx
    simp only [inner, List.mem_cons, List.not_mem_nil, or_false] at he
    grind [yield]

/-- What holds of a phrase if it holds of those right below it holds of every phrase. -/
@[elab_as_elim]
theorem induction {P : Phrase → Prop} (step : ∀ d, (∀ e ∈ d.inner, P e) → P d) (d : Phrase) :
    P d := by
  have hsingle : ∀ {d e : Phrase}, d.inner = [e] → P e → P d :=
    fun hd he => step _ (hd ▸ List.forall_mem_singleton.mpr he)
  have hpair : ∀ {d l r : Phrase}, d.inner = [l, r] → P l → P r → P d :=
    fun hd hl hr => step _ (hd ▸ List.forall_mem_cons.mpr ⟨hl, List.forall_mem_singleton.mpr hr⟩)
  exact Phrase.rec (motive_1 := P) (motive_2 := fun es => ∀ e ∈ es, P e)
    (fun _ _ => step _ nofun) (fun _ _ => step _ nofun) (fun _ => step _ nofun)
    (fun _ _ => hsingle rfl) (fun f es => step (.call f es)) (fun _ => hsingle rfl)
    (fun _ _ => hsingle rfl) (fun _ _ _ => hpair rfl) (fun _ _ _ => hpair rfl)
    (fun _ => hsingle rfl) (fun _ _ _ => hpair rfl) nofun (fun _ _ he hes => List.forall_mem_cons.mpr ⟨he, hes⟩) d

theorem pieces_tree (hd : ∀ e, d ≠ .parens e) :
    d.tree.pieces = d.inner.map fun e => .expression e.tree := by
  cases d with
  | parens e => exact absurd rfl (hd e)
  | call f es => simp [tree, Expr.pieces, inner]
  | _ => rfl

end Phrase

/-! ### Clauses -/

namespace Clause

/-- The phrases right below a clause. -/
def phrases : Clause → List Phrase
  | print _ | leave | skip | block _ => []
  | assign _ l e => [l, e]
  | ifThen c _ | ifThenElse c _ _ | whileDo c _ => [c]
  | read e | write e | ret e => [e]

/-- The clauses right below a clause. -/
def inner : Clause → List Clause
  | print _ | leave | skip | assign .. | read _ | write _ | ret _ => []
  | ifThen _ s | whileDo _ s => [s]
  | ifThenElse _ s t => [s, t]
  | block ss => ss

variable {c s : Clause} {d : Phrase}

theorem grammatical_of_isTarget (h : d.IsTarget) : d.Grammatical := by
  cases d with
  | var | entry => exact h
  | _ => cases h

theorem Grammatical.of_mem_phrases (h : c.Grammatical) (hd : d ∈ c.phrases) : d.Grammatical := by
  cases c with
  | print | leave | skip | block => cases hd
  | assign _ l e =>
    obtain ⟨hl, -, he⟩ := h
    exact List.forall_mem_cons.mpr ⟨grammatical_of_isTarget hl, List.forall_mem_singleton.mpr he⟩ d hd
  | ifThen | ifThenElse | whileDo =>
    obtain rfl := List.mem_singleton.mp hd
    exact h.1
  | read =>
    obtain rfl := List.mem_singleton.mp hd
    exact grammatical_of_isTarget h
  | write | ret =>
    obtain rfl := List.mem_singleton.mp hd
    exact h.2

theorem Grammatical.of_mem_inner (h : c.Grammatical) (hs : s ∈ c.inner) : s.Grammatical := by
  cases c with
  | print | leave | skip | assign | read | write | ret => cases hs
  | ifThen | whileDo =>
    obtain rfl := List.mem_singleton.mp hs
    exact h.2
  | ifThenElse _ t u =>
    obtain ⟨-, ht, -, hu⟩ := h
    exact List.forall_mem_cons.mpr ⟨ht, List.forall_mem_singleton.mpr hu⟩ s hs
  | block ss => exact (allGrammatical_iff ss).mp h.2 s hs

theorem yield_subset_of_mem_phrases (hd : d ∈ c.phrases) : d.yield ⊆ c.yield := by
  intro x hx
  cases c <;> simp only [phrases, List.mem_cons, List.not_mem_nil, or_false] at hd <;>
    grind [yield, parenthesized]

theorem yield_subset_of_mem_inner (hs : s ∈ c.inner) : s.yield ⊆ c.yield := by
  cases c with
  | block ss =>
    have hjoined : s.yield ⊆ joined .semicolon (yields ss) := by
      rw [yields_eq_map]
      exact mem_joined (List.mem_map_of_mem hs)
    exact fun x hx => List.mem_cons_of_mem _ (List.mem_append_left _ (hjoined hx))
  | print | leave | skip | assign | read | write | ret => cases hs
  | ifThen | ifThenElse | whileDo =>
    intro x hx
    simp only [inner, List.mem_cons, List.not_mem_nil, or_false] at hs
    grind [yield]

/-- What holds of a clause if it holds of those right below it holds of every clause. -/
@[elab_as_elim]
theorem induction {P : Clause → Prop} (step : ∀ c, (∀ s ∈ c.inner, P s) → P c) (c : Clause) :
    P c := by
  have hsingle : ∀ {c s : Clause}, c.inner = [s] → P s → P c :=
    fun hc hs => step _ (hc ▸ List.forall_mem_singleton.mpr hs)
  have hpair : ∀ {c s t : Clause}, c.inner = [s, t] → P s → P t → P c :=
    fun hc hs ht => step _ (hc ▸ List.forall_mem_cons.mpr ⟨hs, List.forall_mem_singleton.mpr ht⟩)
  exact Clause.rec (motive_1 := P) (motive_2 := fun ss => ∀ s ∈ ss, P s)
    (fun _ => step _ nofun) (fun _ _ _ => step _ nofun) (fun _ _ => hsingle rfl)
    (fun _ _ _ => hpair rfl) (fun _ _ => hsingle rfl) (fun _ => step _ nofun)
    (fun _ => step _ nofun) (fun _ => step _ nofun) (step _ nofun) (step _ nofun)
    (fun ss => step (.block ss)) nofun (fun _ _ hs hss => List.forall_mem_cons.mpr ⟨hs, hss⟩) c

theorem pieces_tree (c : Clause) : c.tree.pieces =
    c.phrases.map (fun d => .expression d.tree) ++ c.inner.map fun s => .statement s.tree := by
  cases c with
  | assign update => cases update <;> rfl
  | block ss => simp [tree, Stmt.pieces, phrases, inner]
  | _ => rfl

end Clause

/-! ### Programs -/

theorem TypePhrase.yield_subset {t : TypePhrase} {e : Phrase} (he : t.size = some e) :
    e.yield ⊆ t.yield := by
  intro x hx
  simp [yield, he, hx]

theorem DeclarationPhrase.yield_subset (d : DeclarationPhrase) : d.type.yield ⊆ d.yield :=
  fun _ hx => List.mem_cons_of_mem _ (List.mem_cons_of_mem _ hx)

namespace FunctionPhrase

variable {f : FunctionPhrase}

theorem yield_subset_of_mem_parameters {d : DeclarationPhrase} (hd : d ∈ f.parameters) :
    d.yield ⊆ f.yield := by
  have hjoined : d.yield ⊆ joined .comma (f.parameters.map DeclarationPhrase.yield) :=
    mem_joined (List.mem_map_of_mem hd)
  intro x hx
  simp [yield, hjoined hx]

theorem yield_subset_of_mem_declarations {d : DeclarationPhrase} (hd : d ∈ f.declarations) :
    d.yield ⊆ f.yield := by
  have hjoined : d.yield ⊆ joined .semicolon (f.declarations.map DeclarationPhrase.yield) :=
    mem_joined (List.mem_map_of_mem hd)
  intro x hx
  simp [yield, declarationsYield, hjoined hx]

theorem yield_subset_of_mem_body {c : Clause} (hc : c ∈ f.body) : c.yield ⊆ f.yield := by
  have hjoined : c.yield ⊆ joined .semicolon (f.body.map Clause.yield) :=
    mem_joined (List.mem_map_of_mem hc)
  intro x hx
  simp [yield, hjoined hx]

end FunctionPhrase

namespace Grammar

/-- A grammatical construct whose terminals satisfy `R` makes an element that satisfies `P`. -/
structure Ensures (R : Terminal → Prop) (P : Element → Prop) : Prop where
  phrase : ∀ d : Phrase, d.Grammatical → (∀ x ∈ d.yield, R x) → P (.expression d.tree)
  clause : ∀ c : Clause, c.Grammatical → (∀ x ∈ c.yield, R x) → P (.statement c.tree)
  typeName : ∀ t : TypePhrase, t.Grammatical → (∀ x ∈ t.yield, R x) → P (.typeName t.tree)
  parameter : ∀ d : DeclarationPhrase, d.type.Grammatical → (∀ x ∈ d.yield, R x) →
    P (.parameter d.tree)
  declaration : ∀ d : DeclarationPhrase, d.type.Grammatical → (∀ x ∈ d.yield, R x) →
    P (.declaration d.tree)
  function : ∀ f : FunctionPhrase, f.Grammatical → (∀ x ∈ f.yield, R x) → P (.function f.tree)
  program : ∀ p : ProgramPhrase, p.Grammatical → (∀ x ∈ p.yield, R x) → P (.program p.tree)

namespace Ensures

variable {R : Terminal → Prop} {P : Element → Prop}

theorem throughout_phrase (h : Ensures R P) (d : Phrase) : d.Grammatical →
    (∀ x ∈ d.yield, R x) → (Element.expression d.tree).Throughout P := by
  induction d using Phrase.induction with
  | step d ih =>
    intro hd hR
    have hinner : ∀ e ∈ d.inner, (Element.expression e.tree).Throughout P := fun e he =>
      ih e he (hd.of_mem_inner he) fun x hx => hR x (Phrase.yield_subset he hx)
    by_cases hparens : ∃ e, d = .parens e
    · obtain ⟨e, rfl⟩ := hparens
      exact hinner e (List.mem_singleton_self e)
    · refine Element.throughout_iff.mpr ⟨h.phrase d hd hR, ?_⟩
      rw [Element.pieces, Phrase.pieces_tree fun e he => hparens ⟨e, he⟩]
      exact List.forall_mem_map.mpr hinner

theorem throughout_clause (h : Ensures R P) (c : Clause) : c.Grammatical →
    (∀ x ∈ c.yield, R x) → (Element.statement c.tree).Throughout P := by
  induction c using Clause.induction with
  | step c ih =>
    intro hc hR
    refine Element.throughout_iff.mpr ⟨h.clause c hc hR, ?_⟩
    rw [Element.pieces, Clause.pieces_tree]
    refine List.forall_mem_append.mpr ⟨List.forall_mem_map.mpr fun d hd => ?_,
      List.forall_mem_map.mpr fun s hs => ?_⟩
    · exact h.throughout_phrase d (hc.of_mem_phrases hd) fun x hx =>
        hR x (Clause.yield_subset_of_mem_phrases hd hx)
    · exact ih s hs (hc.of_mem_inner hs) fun x hx => hR x (Clause.yield_subset_of_mem_inner hs hx)

theorem throughout_typeName (h : Ensures R P) {t : TypePhrase} (ht : t.Grammatical)
    (hR : ∀ x ∈ t.yield, R x) : (Element.typeName t.tree).Throughout P := by
  refine Element.throughout_iff.mpr ⟨h.typeName t ht hR, ?_⟩
  obtain ⟨base, _ | e⟩ := t
  · exact nofun
  · exact List.forall_mem_singleton.mpr (h.throughout_phrase e (ht e rfl).2 fun x hx =>
      hR x (TypePhrase.yield_subset rfl hx))

theorem throughout_declared (h : Ensures R P) {d : DeclarationPhrase} (hd : d.type.Grammatical)
    (hR : ∀ x ∈ d.yield, R x) {x : Element} (hx : P x)
    (hpieces : x.pieces = [.typeName d.type.tree]) : x.Throughout P := by
  refine Element.throughout_iff.mpr ⟨hx, ?_⟩
  rw [hpieces, List.forall_mem_singleton]
  exact h.throughout_typeName hd fun x hx => hR x (d.yield_subset hx)

theorem throughout_function (h : Ensures R P) {f : FunctionPhrase} (hf : f.Grammatical)
    (hR : ∀ x ∈ f.yield, R x) : (Element.function f.tree).Throughout P := by
  refine Element.throughout_iff.mpr ⟨h.function f hf hR, ?_⟩
  have hparameters : ∀ d ∈ f.parameters, (Element.parameter d.tree).Throughout P := by
    intro d hd
    have hR := fun x hx => hR x (FunctionPhrase.yield_subset_of_mem_parameters hd hx)
    exact h.throughout_declared (hf.parameters d hd) hR (h.parameter d (hf.parameters d hd) hR) rfl
  have hdeclarations : ∀ d ∈ f.declarations, (Element.declaration d.tree).Throughout P := by
    intro d hd
    have hR := fun x hx => hR x (FunctionPhrase.yield_subset_of_mem_declarations hd hx)
    exact h.throughout_declared (hf.declarations d hd) hR (h.declaration d (hf.declarations d hd) hR) rfl
  have hbody : ∀ c ∈ f.body, (Element.statement c.tree).Throughout P := fun c hc =>
    h.throughout_clause c (hf.body c hc) fun x hx => hR x (FunctionPhrase.yield_subset_of_mem_body hc hx)
  simpa [Element.pieces, FunctionPhrase.tree, or_imp, forall_and] using
    ⟨hparameters, hdeclarations, hbody⟩

/-- **What constructs make sure of for their own elements holds throughout a program.** -/
theorem throughout (h : Ensures R P) {p : ProgramPhrase} (hp : p.Grammatical)
    (hR : ∀ x ∈ p.yield, R x) : (Element.program p.tree).Throughout P := by
  refine Element.throughout_iff.mpr ⟨h.program p hp hR, ?_⟩
  refine List.forall_mem_map.mpr (List.forall_mem_map.mpr fun f hf => ?_)
  exact h.throughout_function (hp.functions f hf) fun x hx => hR x (List.mem_flatMap.mpr ⟨f, hf, hx⟩)

end Ensures
end Grammar
end SyntaxGraph
