/-
# The depth of the recursion

A machine reads by the scripts of the rules. It keeps the calls that wait for
an answer on a stack, and the number of open levels in a counter: a nested call
refuses to go on at the limit, counts a level before its rule is read, and takes
it back when the rule has answered, whatever the answer is. Every state of the
machine is a moment of the reading.

Two things are shown. What one step preserves (`Machine.Sound.step`): the counter
is the number of nested calls on the stack, it is at most the limit, and each
active call was made by the one below it. Since the rank goes down along direct
calls, this bounds the number of active calls (`IsCallChain.length_le`). And what a
call comes to (`Call.exists_returns`, `Call.returns_parser`): an answer to the call
below, with the counter as it was found. The answer to the call of a program is what
the grammar reads.

Key definitions: `Stack`, `Machine`, `Machine.step`, `Machine.Sound`,
`Call.Returns`.
Key theorems: `IsCallChain.length_le`, `Machine.Sound.step`, `Call.exists_returns`,
`recursion_bounded`.
-/
import Mathlib.Logic.Function.Iterate
import Mathlib.Tactic.Choose
import SyntaxGraph.Proofs.Grammar.Run
import SyntaxGraph.Proofs.Grammar.ScriptRun

namespace SyntaxGraph
namespace Grammar

open TokenStream

/-! ### The machine -/

/-- The calls that wait, the latest on top; `α` is what they wait for. -/
inductive Stack : Type → Type 1 where
  | empty {α : Type} : Stack α
  /-- A rule that goes on with `next`. -/
  | rule {α : Type} (r : Rule) (next : α → Script r.Result) (below : Stack r.Result) : Stack α
  /-- A nested call that has opened a level for its rule. -/
  | nested {α : Type} (r : Rule) (below : Stack α) : Stack α

/-- The calls on a stack. -/
def Stack.calls {α : Type} : Stack α → List Call
  | empty => []
  | rule r _ below => .rule r :: below.calls
  | nested r below => .nested r :: below.calls

/-- A moment of the reading. -/
inductive Machine where
  /-- The rule `r` is read and has come to the given script. -/
  | reading (r : Rule) (script : Script r.Result) (below : Stack r.Result) (depth : Nat)
      (rest : TokenStream)
  /-- A nested call of the rule `r` is about to open a level. -/
  | opening (r : Rule) (below : Stack r.Result) (depth : Nat) (rest : TokenStream)
  /-- A call is over, and this is its answer. -/
  | answering {α : Type} (outcome : Except ParseError (α × TokenStream)) (below : Stack α)
      (depth : Nat)

/-- The machine at the start of a call. -/
def Call.enter : (c : Call) → Stack c.target.Result → Nat → TokenStream → Machine
  | rule r, below, depth, rest => .reading r (.ofRule r) below depth rest
  | nested r, below, depth, rest => .opening r below depth rest

namespace Machine

/-- The counter of the open levels. -/
def depth : Machine → Nat
  | reading _ _ _ depth _ | opening _ _ depth _ | answering _ _ depth => depth

/-- The calls that wait for an answer. -/
def waiting : Machine → List Call
  | reading _ _ below _ _ | opening _ below _ _ | answering _ below _ => below.calls

/-- All calls that have begun and are not over, the latest in front. -/
def active : Machine → List Call
  | reading r _ below _ _ => .rule r :: below.calls
  | opening r below _ _ => .nested r :: below.calls
  | answering _ below _ => below.calls

/-- The machine before it reads a program. -/
def start (s : TokenStream) : Machine :=
  (Call.rule .program).enter .empty 0 s

/-- One step of the machine, where at most `limit` levels can be open. -/
def step (limit : Nat) : Machine → Machine
  | reading _ (.done a) below depth rest => answering (.ok (a, rest)) below depth
  | reading r (.step s next) below depth rest =>
    match s.run rest with
    | .ok (b, rest) => reading r (next b) below depth rest
    | .error e => answering (.error e) below depth
  | reading r (.call c next) below depth rest => c.enter (.rule r next below) depth rest
  | opening r below depth rest =>
    if limit ≤ depth then answering (unexpected (.nesting limit) rest) below depth
    else reading r (.ofRule r) (.nested r below) (depth + 1) rest
  | answering outcome .empty depth => answering outcome .empty depth
  | answering (.ok (a, rest)) (.rule r next below) depth => reading r (next a) below depth rest
  | answering (.error e) (.rule _ _ below) depth => answering (.error e) below depth
  | answering outcome (.nested _ below) depth => answering outcome below (depth - 1)

/-- The machine after `n` steps of the reading of a stream. -/
def after (limit : Nat) (s : TokenStream) (n : Nat) : Machine :=
  (step limit)^[n] (start s)

end Machine

/-! ### Chains of calls -/

/-- The calls that a call may make. -/
def Call.callees : Call → List Call
  | rule r => r.calls
  | nested r => [.rule r]

/-- Each call is made by the one behind it, and the last is that of a program. -/
def IsCallChain : List Call → Prop
  | [] => True
  | [c] => c = .rule .program
  | c :: caller :: others => c ∈ caller.callees ∧ IsCallChain (caller :: others)

theorem IsCallChain.tail {c : Call} {cs : List Call} (h : IsCallChain (c :: cs)) :
    IsCallChain cs := by
  cases cs with
  | nil => trivial
  | cons caller others => exact h.2

/-- How many direct calls can follow one another from a call on. -/
def Call.rank : Call → Nat
  | rule r => r.rank
  | nested _ => 11

/-- A call ranks below its caller, except that it may open a level. -/
theorem Call.rank_lt_of_mem_callees {c caller : Call} (h : c ∈ caller.callees) :
    c.rank < caller.rank ∨ c.isNested = true := by
  cases caller with
  | nested r =>
    obtain rfl : c = .rule r := List.mem_singleton.mp h
    exact .inl (Nat.lt_succ_of_le r.rank_le)
  | rule r =>
    cases c with
    | rule r' => exact .inl (Rule.rank_lt h)
    | nested r' => exact .inr rfl

@[simp] theorem Call.countP_rule (r : Rule) (cs : List Call) :
    (Call.rule r :: cs).countP Call.isNested = cs.countP Call.isNested :=
  List.countP_cons_of_neg Bool.false_ne_true

@[simp] theorem Call.countP_nested (r : Rule) (cs : List Call) :
    (Call.nested r :: cs).countP Call.isNested = cs.countP Call.isNested + 1 :=
  List.countP_cons_of_pos rfl

/-- A level has room for twelve calls: the nested call and, ranks going down, eleven rules. -/
theorem IsCallChain.length_add_rank_le {c : Call} {cs : List Call} (h : IsCallChain (c :: cs)) :
    (c :: cs).length + c.rank ≤ 12 * (c :: cs).countP Call.isNested + 8 := by
  induction cs generalizing c with
  | nil =>
    obtain rfl : c = .rule .program := h
    decide
  | cons caller others ih =>
    have hlen := ih h.2
    have hmade := Call.rank_lt_of_mem_callees h.1
    rw [List.length_cons]
    cases c with
    | rule r =>
      have hlt : (Call.rule r).rank < caller.rank := hmade.resolve_right Bool.noConfusion
      rw [Call.countP_rule]
      omega
    | nested r =>
      have hrank : (Call.nested r).rank = 11 := rfl
      rw [Call.countP_nested]
      omega

/-- The open levels bound the number of active calls. -/
theorem IsCallChain.length_le {cs : List Call} (h : IsCallChain cs) :
    cs.length ≤ 12 * cs.tail.countP Call.isNested + 9 := by
  cases cs with
  | nil => exact Nat.zero_le _
  | cons c cs =>
    have hlen := h.length_add_rank_le
    rw [List.tail_cons]
    cases c with
    | rule r =>
      rw [Call.countP_rule] at hlen
      omega
    | nested r =>
      have hrank : (Call.nested r).rank = 11 := rfl
      rw [Call.countP_nested] at hlen
      omega

/-! ### What a step preserves -/

/-- The rules on a stack keep to the calls they may make, whatever they are answered. -/
def Stack.Lawful {α : Type} : Stack α → Prop
  | empty => True
  | rule r next below => (∀ a, (next a).Uses (· ∈ r.calls)) ∧ below.Lawful
  | nested _ below => below.Lawful

namespace Machine

/-- The rules that are active keep to the calls they may make. -/
def Lawful : Machine → Prop
  | reading r script below _ _ => script.Uses (· ∈ r.calls) ∧ below.Lawful
  | opening _ below _ _ | answering _ below _ => below.Lawful

/-- What holds at every moment of a reading. -/
structure Sound (limit : Nat) (m : Machine) : Prop where
  lawful : m.Lawful
  chain : IsCallChain m.active
  depth_eq : m.depth = m.waiting.countP Call.isNested
  depth_le : m.depth ≤ limit

theorem sound_start (limit : Nat) (s : TokenStream) : (start s).Sound limit where
  lawful := ⟨Script.uses_ofRule .program, trivial⟩
  chain := rfl
  depth_eq := rfl
  depth_le := Nat.zero_le limit

/-- Each step leaves the machine sound. -/
theorem Sound.step {limit : Nat} {m : Machine} (h : m.Sound limit) : (m.step limit).Sound limit := by
  obtain ⟨hlawful, hchain, hdepth, hle⟩ := h
  cases m with
  | reading r script below depth rest =>
    cases script with
    | done a => exact ⟨hlawful.2, hchain.tail, hdepth, hle⟩
    | step s next =>
      rw [Machine.step]
      cases s.run rest with
      | error e => exact ⟨hlawful.2, hchain.tail, hdepth, hle⟩
      | ok br => exact ⟨⟨hlawful.1 br.1, hlawful.2⟩, hchain, hdepth, hle⟩
    | call c next =>
      obtain ⟨⟨hmem, hnext⟩, hbelow⟩ := hlawful
      cases c with
      | rule r' => exact ⟨⟨Script.uses_ofRule r', hnext, hbelow⟩, ⟨hmem, hchain⟩, hdepth, hle⟩
      | nested r' => exact ⟨⟨hnext, hbelow⟩, ⟨hmem, hchain⟩, hdepth, hle⟩
  | opening r below depth rest =>
    rw [Machine.step]
    by_cases hfull : limit ≤ depth
    · rw [if_pos hfull]
      exact ⟨hlawful, hchain.tail, hdepth, hle⟩
    · rw [if_neg hfull]
      refine ⟨⟨Script.uses_ofRule r, hlawful⟩, ⟨List.mem_singleton.mpr rfl, hchain⟩, ?_, ?_⟩
      · exact (congrArg (· + 1) hdepth).trans (Call.countP_nested r below.calls).symm
      · exact Nat.lt_of_not_le hfull
  | answering outcome below depth =>
    cases below with
    | empty => exact ⟨hlawful, hchain, hdepth, hle⟩
    | rule r next below =>
      cases outcome with
      | error e => exact ⟨hlawful.2, hchain.tail, hdepth, hle⟩
      | ok ar => exact ⟨⟨hlawful.1 ar.1, hlawful.2⟩, hchain, hdepth, hle⟩
    | nested r below =>
      have hopen : depth = below.calls.countP Call.isNested + 1 :=
        hdepth.trans (Call.countP_nested r below.calls)
      exact ⟨hlawful, hchain.tail, Nat.sub_eq_of_eq_add hopen, Nat.le_trans (Nat.sub_le _ _) hle⟩

theorem sound_after (limit : Nat) (s : TokenStream) (n : Nat) : (after limit s n).Sound limit := by
  induction n with
  | zero => exact sound_start limit s
  | succ n ih =>
    rw [after, Function.iterate_succ_apply']
    exact ih.step

/-- A sound machine has no more active calls than its limit allows. -/
theorem Sound.length_active_le {limit : Nat} {m : Machine} (h : m.Sound limit) :
    m.active.length ≤ 12 * limit + 9 := by
  have htail : m.active.tail.countP Call.isNested ≤ m.waiting.countP Call.isNested := by
    cases m with
    | reading | opening => exact Nat.le_refl _
    | answering => exact (List.tail_sublist _).countP_le
  have hlen := h.chain.length_le
  have hdepth := h.depth_eq
  have hle := h.depth_le
  omega

/-! ### What a call comes to -/

/-- The machine comes from `m` to `m'`, and till then more than `height` calls are active. -/
def Reaches (limit height : Nat) (m m' : Machine) : Prop :=
  ∃ n, (step limit)^[n] m = m' ∧ ∀ k < n, height < ((step limit)^[k] m).active.length

variable {limit height : Nat} {m m' m'' : Machine}

theorem Reaches.refl (m : Machine) : Reaches limit height m m :=
  ⟨0, rfl, fun _ hk => absurd hk (Nat.not_lt_zero _)⟩

theorem Reaches.head (hm : height < m.active.length) (h : Reaches limit height (m.step limit) m') :
    Reaches limit height m m' := by
  obtain ⟨n, hn, hbelow⟩ := h
  refine ⟨n + 1, hn, fun k hk => ?_⟩
  cases k with
  | zero => exact hm
  | succ k => exact hbelow k (Nat.lt_of_succ_lt_succ hk)

theorem Reaches.trans (h : Reaches limit height m m') (h' : Reaches limit height m' m'') :
    Reaches limit height m m'' := by
  obtain ⟨n, hn, hbelow⟩ := h
  induction n generalizing m with
  | zero =>
    obtain rfl : m = m' := hn
    exact h'
  | succ n ih =>
    exact Reaches.head (hbelow 0 n.succ_pos)
      (ih hn fun k hk => hbelow (k + 1) (Nat.succ_lt_succ hk))

theorem Reaches.mono {height' : Nat} (h : Reaches limit height m m') (hle : height' ≤ height) :
    Reaches limit height' m m' := by
  obtain ⟨n, hn, hbelow⟩ := h
  exact ⟨n, hn, fun k hk => Nat.lt_of_le_of_lt hle (hbelow k hk)⟩

end Machine

open Machine

/-- With `depth` open levels, the call `c` reads what `p` reads: whoever waits below is
answered, with the counter as it was when the call began. -/
def Call.Returns (limit depth : Nat) (c : Call) (p : Parser c.target.Result) : Prop :=
  ∀ (below : Stack c.target.Result) (rest : TokenStream),
    Reaches limit below.calls.length (c.enter below depth rest)
      (.answering (p rest) below depth)

variable {limit depth : Nat}

/-- A script is read to its end if its calls return. -/
theorem Script.reaches {r : Rule} {script : Script r.Result}
    {call : (c : Call) → Parser c.target.Result}
    (h : script.Uses fun c => c.Returns limit depth (call c)) (below : Stack r.Result)
    (rest : TokenStream) :
    Reaches limit below.calls.length (.reading r script below depth rest)
      (.answering (script.run call rest) below depth) := by
  induction script generalizing rest with
  | done a => exact Reaches.head (Nat.lt_succ_self _) (Reaches.refl _)
  | step s next ih =>
    refine Reaches.head (Nat.lt_succ_self _) ?_
    rw [Machine.step, Script.run, bind_run]
    cases s.run rest with
    | error e => exact Reaches.refl _
    | ok br => exact ih br.1 (h br.1) br.2
  | call c next ih =>
    refine Reaches.head (Nat.lt_succ_self _) ?_
    have hcall := h.1 (.rule r next below) rest
    refine (hcall.mono (Nat.le_succ _)).trans (Reaches.head (Nat.lt_succ_self _) ?_)
    rw [Script.run, bind_run]
    cases call c rest with
    | error e => exact Reaches.refl _
    | ok br => exact ih br.1 (h.2 br.1) br.2

theorem Call.returns_rule {r : Rule} {call : (c : Call) → Parser c.target.Result}
    (h : ∀ c ∈ r.calls, c.Returns limit depth (call c)) :
    (Call.rule r).Returns limit depth ((Script.ofRule r).run call) :=
  fun below rest => Script.reaches ((Script.uses_ofRule r).mono h) below rest

/-- At the limit, a nested call is refused. -/
theorem Call.returns_refused (hfull : limit ≤ depth) (r : Rule) :
    (Call.nested r).Returns limit depth (unexpected (.nesting limit)) := by
  intro below rest
  refine Reaches.head (Nat.lt_succ_self _) ?_
  show Reaches limit _ (if limit ≤ depth then _ else _) _
  rw [if_pos hfull]
  exact Reaches.refl _

/-- Below the limit, a nested call returns if its rule does one level down: the level that
was counted is taken back. -/
theorem Call.returns_nested {r : Rule} {p : Parser r.Result} (hopen : depth < limit)
    (h : (Call.rule r).Returns limit (depth + 1) p) : (Call.nested r).Returns limit depth p := by
  intro below rest
  refine Reaches.head (Nat.lt_succ_self _) ?_
  show Reaches limit _ (if limit ≤ depth then _ else _) _
  rw [if_neg (Nat.not_le_of_lt hopen)]
  have hrule := h (.nested r below) rest
  exact (hrule.mono (Nat.le_succ _)).trans (Reaches.head (Nat.lt_succ_self _) (Reaches.refl _))

/-- **Every call returns**, at any depth. -/
theorem Call.exists_returns (limit depth : Nat) (c : Call) : ∃ p, c.Returns limit depth p := by
  refine Call.induction
    (P := fun n c => ∀ depth, limit - depth = n → ∃ p, c.Returns limit depth p)
    ?_ ?_ ?_ (limit - depth) c depth rfl
  · intro n r ih depth hn
    have hcalls : ∀ c : Call, ∃ p, c ∈ r.calls → c.Returns limit depth p := by
      intro c
      by_cases hc : c ∈ r.calls
      · obtain ⟨p, hp⟩ := ih c hc depth hn
        exact ⟨p, fun _ => hp⟩
      · exact ⟨unexpected (.nesting limit), fun h => absurd h hc⟩
    choose call hcall using hcalls
    exact ⟨_, Call.returns_rule hcall⟩
  · intro r depth hn
    exact ⟨_, Call.returns_refused (Nat.le_of_sub_eq_zero hn) r⟩
  · intro n r ih depth hn
    obtain ⟨p, hp⟩ := ih (depth + 1) (by omega)
    exact ⟨p, Call.returns_nested (by omega) hp⟩

/-- With `n` levels left, a call reads what the grammar does. -/
theorem Call.returns_parser {n : Nat} (c : Call) (hn : depth + n = limit) (hc : c.Fits limit n) :
    c.Returns limit depth (c.parser limit n) := by
  refine Call.induction
    (P := fun n c => ∀ depth, depth + n = limit → c.Fits limit n →
      c.Returns limit depth (c.parser limit n))
    ?_ ?_ ?_ n c depth hn hc
  · intro n r ih depth hn hr
    rw [Call.parser_rule, ← Script.run_ofRule r fun houter => (hr houter).2]
    exact Call.returns_rule fun c hc => ih c hc depth hn (hr.of_mem_calls hc)
  · intro r depth hn _
    exact Call.returns_refused (by omega) r
  · intro n r ih depth hn hr
    have hrule := ih (depth + 1) (by omega) hr.opened
    rw [Call.parser_rule] at hrule
    exact Call.returns_nested (by omega) hrule

/-- **The recursion of the grammar is bounded, and its counter of levels is exact.** At every
moment of the reading of a stream the counter is the number of nested calls that wait for
their rules, and at most the limit; each active call was made by the one below it, and the
limit bounds their number. Every call, from any state, ends with an answer, good or bad, and
leaves the counter as it found it. The reading ends with what the grammar reads. And no
rule comes back to itself but through a nested call. -/
theorem recursion_bounded (limit : Nat) :
    (∀ (items : List Item) (n : Nat), let m := after limit (ofItems items) n
      m.depth = m.waiting.countP Call.isNested ∧ m.depth ≤ limit ∧
        IsCallChain m.active ∧ m.active.length ≤ 12 * limit + 9) ∧
    (∀ (c : Call) (below : Stack c.target.Result) (depth : Nat) (rest : TokenStream),
      ∃ outcome, Reaches limit below.calls.length (c.enter below depth rest)
        (.answering outcome below depth)) ∧
    (∀ items : List Item, ∃ outcome, Reaches limit 0 (start (ofItems items))
      (.answering outcome .empty 0) ∧ outcome.map Prod.fst = (ofItems items).parse limit) ∧
    ∀ r : Rule, ¬ Relation.TransGen (fun a b : Rule => .rule b ∈ a.calls) r r := by
  refine ⟨fun items n => ?_, fun c below depth rest => ?_, fun items => ?_,
    Rule.not_transGen_calls⟩
  · have h := sound_after limit (ofItems items) n
    exact ⟨h.depth_eq, h.depth_le, h.chain, h.length_active_le⟩
  · obtain ⟨p, hp⟩ := Call.exists_returns limit depth c
    exact ⟨p rest, hp below rest⟩
  · have hprogram : (Call.rule .program).Returns limit 0 (program limit) :=
      Call.returns_parser (.rule .program) (Nat.zero_add limit) fun _ => ⟨rfl, rfl⟩
    exact ⟨_, hprogram .empty (ofItems items), rfl⟩

end Grammar
end SyntaxGraph
