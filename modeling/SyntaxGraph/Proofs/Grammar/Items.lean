/-
# Items and the stream that they make

The stream of a list of items has the items in front as its tokens, up to the
first item that is no proper token, which is its ending. What a parser says at
an index of the stream is about the item with that index.

Positions do not matter for a parse, so the index of the item that a parse
fails at is read off from the same items at positions that count them.

Key definitions: `Item.isLast`, `Item.shape`, `refusalAfter`, `stopIndex`, `StopsAt`,
`BreaksAt`.
Key theorems: `TokenStream.refusal_behind`, `TokenStream.alike_of_shapes`,
`TokenStream.ofItemsAfter_of_take_eq`.
-/
import SyntaxGraph.Proofs.Grammar.Mirror

namespace SyntaxGraph

namespace Item

/-- The stream goes no further than this item: the end of the input or an error. -/
def isLast : Item → Bool
  | .ok t => t.kind = .eof
  | .error _ => true

/-- The token that the item is, unless that is the end of the input. -/
def token? : Item → Option Token
  | .ok t => if t.kind = .eof then none else some t
  | .error _ => none

/-- Where the item stands. -/
def position : Item → Position
  | .ok t => t.position
  | .error e => e.position

/-- The item in another place. -/
def moved (p : Position) : Item → Item
  | .ok t => .ok { t with position := p }
  | .error e => .error { e with position := p }

/-- What the grammar sees of an item: the terminal that a token shows as, and
nothing of an error but that it is one. -/
def shape : Item → Option Terminal
  | .ok t => some t.terminal
  | .error _ => none

theorem exists_error_of_shape {x : Item} {e : LexicalError} (h : x.shape = shape (.error e)) :
    ∃ e', x = .error e' := by
  cases x with
  | ok t => cases h
  | error e' => exact ⟨e', rfl⟩

theorem isNone_token?_of_shape {x y : Item} (h : x.shape = y.shape) :
    x.token?.isNone = y.token?.isNone := by
  cases x <;> cases y
  · rfl
  · cases h
  · cases h
  · rename_i t u
    have hkind : t.kind = u.kind := Grammar.kind_of_terminal (Option.some.inj h)
    by_cases heof : u.kind = .eof <;> simp [token?, hkind, heof]

end Item

theorem exists_of_shapes {items items' : List Item} (h : items.map Item.shape = items'.map Item.shape)
    {k : Nat} {x : Item} (hx : items[k]? = some x) : ∃ y, items'[k]? = some y ∧ y.shape = x.shape := by
  have hget : items[k]?.map Item.shape = items'[k]?.map Item.shape := by
    simpa using congrArg (fun l => l[k]?) h
  rw [hx] at hget
  exact Option.map_eq_some_iff.mp hget.symm

theorem isNone_found_of_shapes {items items' : List Item} (h : items.map Item.shape = items'.map Item.shape)
    (k : Nat) : (items[k]?.bind Item.token?).isNone = (items'[k]?.bind Item.token?).isNone := by
  cases hx : items[k]? with
  | some x =>
    obtain ⟨y, hy, hshape⟩ := exists_of_shapes h hx
    rw [hy]
    exact Item.isNone_token?_of_shape hshape.symm
  | none =>
    cases hy : items'[k]? with
    | none => rfl
    | some y =>
      obtain ⟨x, hx', -⟩ := exists_of_shapes h.symm hy
      rw [hx] at hx'
      cases hx'

/-- Where the item with the index `k` stands, and behind the last item where
that one stands; `last` is the place in front of all items. -/
def positionAfter (last : Position) (items : List Item) (k : Nat) : Position :=
  match items[k]? with
  | some x => x.position
  | none => (items.getLast?.map Item.position).getD last

/-- Where the item with the index `k` stands, or the end of the input. -/
def positionAt (items : List Item) (k : Nat) : Position :=
  positionAfter .start items k

/-- What a parser fails with when it expects something else than the item with
the index `k`. -/
def refusalAfter (last : Position) (items : List Item) (k : Nat) (x : Expectation) : ParseError :=
  match items[k]? with
  | some (.error e) => .lexical e
  | item => .grammar ⟨item.bind Item.token?, x, positionAfter last items k⟩

/-- The items at positions that count them from `i` on, and behind them the end
of the input. -/
def counted (i : Nat) : List Item → List Item
  | [] => [.ok (Token.endOfInput ⟨i, 0⟩)]
  | x :: items => x.moved ⟨i, 0⟩ :: counted (i + 1) items

/-- The index of the item that a parse with the given limit of nesting fails at. -/
def stopIndex (limit : Nat) (items : List Item) : Option Nat :=
  match (TokenStream.ofItems (counted 0 items)).parse limit with
  | .ok _ => none
  | .error e => some e.position.line

/-- With the given limit, the parse of the items fails with a syntax error about the item
with the index `k`, or about the end of the input behind all items. -/
structure StopsAt (limit : Nat) (items : List Item) (k : Nat) (e : SyntaxError) : Prop where
  fails : (TokenStream.ofItems items).parse limit = .error (.grammar e)
  index : stopIndex limit items = some k
  le_length : k ≤ items.length
  found : e.found = items[k]?.bind Item.token?
  position : e.position = positionAt items k

/-- So the parse fails with the limit of the language. -/
abbrev FailsAt (items : List Item) (k : Nat) (e : SyntaxError) : Prop :=
  StopsAt Grammar.nestingLimit items k e

/-- The parse of the items fails with the lexical error that is the item with the
index `k`, and nothing in front of it ends the stream. -/
structure BreaksAt (items : List Item) (k : Nat) (e : LexicalError) : Prop where
  fails : parse items = .error (.lexical e)
  item : items[k]? = some (.error e)
  first : ∀ x ∈ items.take k, x.isLast = false

namespace TokenStream

/-- What is left of a stream behind `k` tokens. -/
def behind (s : TokenStream) (k : Nat) : TokenStream :=
  ⟨s.tokens.drop k, s.ending⟩

/-- A stream is its first tokens and what is behind them. -/
theorem push_behind {s : TokenStream} {k : Nat} : (s.behind k).push (s.tokens.take k) = s := by
  simp [behind, push]

theorem behind_push {s r : TokenStream} {ts : List Token} (h : s = r.push ts) :
    s.behind ts.length = r ∧ s.tokens.take ts.length = ts ∧ ts.length ≤ s.tokens.length := by
  subst h
  simp [behind, push]

/-! ### The first items -/

theorem ofItemsAfter_eof {t : Token} (ht : t.kind = .eof) (last : Position) (items : List Item) :
    ofItemsAfter last (.ok t :: items) = ⟨[], .endOfInput t.position⟩ :=
  if_pos ht

theorem ofItemsAfter_token {t : Token} (ht : t.kind ≠ .eof) (last : Position) (items : List Item) :
    ofItemsAfter last (.ok t :: items) = (ofItemsAfter t.position items).push [t] :=
  if_neg ht

/-- What a parser says behind `k` tokens is about the item with the index `k`. -/
theorem refusal_behind (last : Position) (items : List Item) {k : Nat}
    (hk : k ≤ (ofItemsAfter last items).tokens.length) (x : Expectation) :
    ((ofItemsAfter last items).behind k).refusal x = refusalAfter last items k x := by
  induction last, items using ofItemsAfter.induct generalizing k with
  | case1 last =>
    obtain rfl : k = 0 := Nat.le_zero.mp hk
    rfl
  | case2 last e items =>
    obtain rfl : k = 0 := Nat.le_zero.mp hk
    rfl
  | case3 last t items ht =>
    rw [ofItemsAfter_eof ht] at hk ⊢
    obtain rfl : k = 0 := Nat.le_zero.mp hk
    simp [behind, refusal, refusalAfter, positionAfter, Item.token?, Item.position, ht]
  | case4 last t items ht ih =>
    rw [ofItemsAfter_token ht] at hk ⊢
    cases k with
    | zero => simp [behind, refusal, refusalAfter, positionAfter, Item.token?, Item.position, ht]
    | succ k =>
      have hlast : positionAfter last (.ok t :: items) (k + 1) = positionAfter t.position items k := by
        simp only [positionAfter, List.getElem?_cons_succ, List.getLast?_cons]
        cases items.getLast? <;> rfl
      have hrest := ih (Nat.le_of_succ_le_succ (by simpa using hk))
      simp only [refusalAfter, List.getElem?_cons_succ, hlast] at hrest ⊢
      exact hrest

/-- Items of the same shapes make streams that are alike throughout. -/
theorem alike_of_shapes (last last' : Position) {items items' : List Item}
    (h : items.map Item.shape = items'.map Item.shape) :
    terminals (ofItemsAfter last items).tokens = terminals (ofItemsAfter last' items').tokens ∧
      (ofItemsAfter last items).ending.isBroken = (ofItemsAfter last' items').ending.isBroken := by
  induction last, items using ofItemsAfter.induct generalizing last' items' with
  | case1 last =>
    obtain rfl := List.map_eq_nil_iff.mp h.symm
    exact ⟨rfl, rfl⟩
  | case2 last e items =>
    obtain ⟨_ | u, items', rfl, hu, -⟩ := List.map_eq_cons_iff.mp h.symm
    · exact ⟨rfl, rfl⟩
    · cases hu
  | case3 last t items ht =>
    obtain ⟨_ | u, items', rfl, hu, -⟩ := List.map_eq_cons_iff.mp h.symm
    · cases hu
    · have hkind : u.kind = .eof := (Grammar.kind_of_terminal (Option.some.inj hu)).trans ht
      rw [ofItemsAfter_eof ht, ofItemsAfter_eof hkind]
      exact ⟨rfl, rfl⟩
  | case4 last t items ht ih =>
    obtain ⟨_ | u, items', rfl, hu, hrest⟩ := List.map_eq_cons_iff.mp h.symm
    · cases hu
    · have hterminal : u.terminal = t.terminal := Option.some.inj hu
      have hkind : u.kind ≠ .eof := by rwa [Grammar.kind_of_terminal hterminal]
      obtain ⟨hterminals, hbroken⟩ := ih u.position hrest.symm
      rw [ofItemsAfter_token ht, ofItemsAfter_token hkind]
      exact ⟨by simp [hterminal, hterminals], hbroken⟩

theorem length_tokens_ofItemsAfter (last : Position) (items : List Item) :
    (ofItemsAfter last items).tokens.length = items.findIdx Item.isLast := by
  induction last, items using ofItemsAfter.induct with
  | case1 last => rfl
  | case2 last e items => rfl
  | case3 last t items ht => simp [ofItemsAfter_eof ht, List.findIdx_cons, Item.isLast, ht]
  | case4 last t items ht ih => simp [ofItemsAfter_token ht, List.findIdx_cons, Item.isLast, ht, ih]

theorem length_tokens_le (items : List Item) : (ofItems items).tokens.length ≤ items.length := by
  rw [ofItems, length_tokens_ofItemsAfter]
  exact List.findIdx_le_length

theorem exists_cons_of_take_eq {α : Type} {a : α} {as bs : List α} {n : Nat}
    (h : bs.take (n + 1) = (a :: as).take (n + 1)) : ∃ cs, bs = a :: cs ∧ cs.take n = as.take n := by
  cases bs with
  | nil => cases h
  | cons b bs =>
    obtain ⟨rfl, hrest⟩ := List.cons.inj h
    exact ⟨bs, rfl, hrest⟩

/-- Lists with the same first `n` items make the same stream, or streams with the
same first `n` tokens. -/
theorem ofItemsAfter_of_take_eq (last : Position) {items items' : List Item} {n : Nat}
    (h : items'.take n = items.take n) :
    ofItemsAfter last items' = ofItemsAfter last items ∨
      ∃ ts r r', ts.length = n ∧ ofItemsAfter last items = push ts r ∧
        ofItemsAfter last items' = push ts r' := by
  cases n with
  | zero => exact .inr ⟨[], ofItemsAfter last items, ofItemsAfter last items', rfl, rfl, rfl⟩
  | succ n =>
    induction last, items using ofItemsAfter.induct generalizing items' n with
    | case1 last =>
      obtain rfl : items' = [] := by simpa using h
      exact .inl rfl
    | case2 last e items =>
      obtain ⟨items', rfl, -⟩ := exists_cons_of_take_eq h
      exact .inl rfl
    | case3 last t items ht =>
      obtain ⟨items', rfl, -⟩ := exists_cons_of_take_eq h
      exact .inl (by rw [ofItemsAfter_eof ht, ofItemsAfter_eof ht])
    | case4 last t items ht ih =>
      obtain ⟨items', rfl, hrest⟩ := exists_cons_of_take_eq h
      rw [ofItemsAfter_token ht, ofItemsAfter_token ht]
      cases n with
      | zero => exact .inr ⟨[t], _, _, rfl, rfl, rfl⟩
      | succ n =>
        rcases ih n hrest with hsame | ⟨ts, r, r', hlength, hr, hr'⟩
        · exact .inl (by rw [hsame])
        · refine .inr ⟨t :: ts, r, r', by rw [List.length_cons, hlength], ?_, ?_⟩
          · rw [hr, push_push, List.singleton_append]
          · rw [hr', push_push, List.singleton_append]

theorem ofItemsAfter_of_take_findIdx (last : Position) {items items' : List Item}
    (h : items'.take (items.findIdx Item.isLast + 1) = items.take (items.findIdx Item.isLast + 1)) :
    ofItemsAfter last items' = ofItemsAfter last items := by
  rcases ofItemsAfter_of_take_eq last h with hsame | ⟨ts, r, r', hlength, hr, -⟩
  · exact hsame
  · have hfew := length_tokens_ofItemsAfter last items
    rw [hr, tokens_push, List.length_append] at hfew
    omega

/-- In front of an error in a stream that has an end, there is the end of the input. -/
theorem exists_eof_of_isBroken_eq_false (last : Position) {items : List Item}
    (h : (ofItemsAfter last items).ending.isBroken = false) {k : Nat} {e : LexicalError}
    (hk : items[k]? = some (.error e)) :
    ∃ j < k, ∃ t : Token, items[j]? = some (.ok t) ∧ t.kind = .eof := by
  induction last, items using ofItemsAfter.induct generalizing k with
  | case1 last => simp at hk
  | case2 last e' items => cases h
  | case3 last t items ht =>
    cases k with
    | zero => cases hk
    | succ k => exact ⟨0, Nat.succ_pos k, t, rfl, ht⟩
  | case4 last t items ht ih =>
    rw [ofItemsAfter_token ht] at h
    cases k with
    | zero => cases hk
    | succ k =>
      obtain ⟨j, hj, u, hu, heof⟩ := ih h hk
      exact ⟨j + 1, Nat.succ_lt_succ hj, u, hu, heof⟩

/-- An end of the input at the last token is as good as none. -/
theorem ofItemsAfter_concat_eof {t : Token} (ht : t.kind = .eof) (last : Position) {items : List Item}
    (h : ∀ x ∈ items, x.isLast = false) (hposition : t.position = positionAfter last items items.length) :
    ofItemsAfter last (items ++ [.ok t]) = ofItemsAfter last items := by
  induction last, items using ofItemsAfter.induct with
  | case1 last =>
    rw [List.nil_append, ofItemsAfter_eof ht, hposition]
    rfl
  | case2 last e items => simp [Item.isLast] at h
  | case3 last u items hu => simp [Item.isLast, hu] at h
  | case4 last u items hu ih =>
    rw [List.cons_append, ofItemsAfter_token hu, ofItemsAfter_token hu,
      ih (List.forall_mem_cons.mp h).2 ?_]
    rw [hposition]
    simp only [positionAfter, List.length_cons, List.getElem?_cons_succ, List.getLast?_cons]
    cases items.getLast? <;> simp [Item.position]

/-- A refusal is the error with its index, or it is about another item there. -/
theorem refusalAfter_cases (last : Position) (items : List Item) (k : Nat) (x : Expectation) :
    (∃ e, items[k]? = some (.error e) ∧ refusalAfter last items k x = .lexical e) ∨
    (∀ e, items[k]? ≠ some (.error e)) ∧ refusalAfter last items k x =
      .grammar ⟨items[k]?.bind Item.token?, x, positionAfter last items k⟩ := by
  unfold refusalAfter
  split
  · rename_i e he
    exact .inl ⟨e, he, rfl⟩
  · rename_i hne
    exact .inr ⟨fun e he => hne e he, rfl⟩

theorem refusalAfter_of_take_eq (last : Position) {items items' : List Item} {k : Nat}
    (h : items'.take (k + 1) = items.take (k + 1)) (x : Expectation) :
    refusalAfter last items' k x = refusalAfter last items k x := by
  have hget : items'[k]? = items[k]? := by
    have := congrArg (fun l => l[k]?) h
    simpa [List.getElem?_take] using this
  cases hitem : items[k]? with
  | some y => simp only [refusalAfter, positionAfter, hget, hitem]
  | none =>
    have hshort : items.length ≤ k := List.getElem?_eq_none_iff.mp hitem
    have hshort' : items'.length ≤ k := List.getElem?_eq_none_iff.mp (hget.trans hitem)
    rw [List.take_of_length_le (Nat.le_succ_of_le hshort),
      List.take_of_length_le (Nat.le_succ_of_le hshort')] at h
    rw [h]

/-! ### Counted items -/

theorem getElem?_counted : ∀ (items : List Item) (i : Nat) {k : Nat}, k ≤ items.length →
    ∃ x, (counted i items)[k]? = some x ∧ x.position = ⟨i + k, 0⟩
  | [], i, 0, _ => ⟨_, rfl, rfl⟩
  | .ok _ :: _, i, 0, _ | .error _ :: _, i, 0, _ => ⟨_, rfl, rfl⟩
  | x :: items, i, k + 1, hk => by
    obtain ⟨y, hy, hposition⟩ := getElem?_counted items (i + 1) (Nat.le_of_succ_le_succ hk)
    rw [Nat.add_right_comm] at hposition
    exact ⟨y, hy, hposition⟩

/-- A refusal is in the place of the item that it is about. -/
theorem position_refusalAfter (last : Position) (items : List Item) (k : Nat) (x : Expectation) :
    (refusalAfter last items k x).position = positionAfter last items k := by
  unfold refusalAfter
  split
  · rename_i e he
    simp [ParseError.position, positionAfter, he, Item.position]
  · rfl

theorem alike_counted (last last' : Position) (items : List Item) (i : Nat) :
    terminals (ofItemsAfter last' (counted i items)).tokens = terminals (ofItemsAfter last items).tokens ∧
      (ofItemsAfter last' (counted i items)).ending.isBroken = (ofItemsAfter last items).ending.isBroken := by
  induction last, items using ofItemsAfter.induct generalizing last' i with
  | case1 last => exact ⟨rfl, rfl⟩
  | case2 last e items => exact ⟨rfl, rfl⟩
  | case3 last t items ht =>
    have hkind : ({ t with position := ⟨i, 0⟩ } : Token).kind = .eof := ht
    rw [counted, Item.moved, ofItemsAfter_eof ht, ofItemsAfter_eof hkind]
    exact ⟨rfl, rfl⟩
  | case4 last t items ht ih =>
    obtain ⟨hterminals, hbroken⟩ := ih ⟨i, 0⟩ (i + 1)
    have hkind : ({ t with position := ⟨i, 0⟩ } : Token).kind ≠ .eof := ht
    rw [counted, Item.moved, ofItemsAfter_token ht, ofItemsAfter_token hkind]
    exact ⟨congrArg (t.terminal :: ·) hterminals, hbroken⟩

/-- Streams that show the same terminals and end in the same way are alike behind
any number of tokens. -/
theorem alike_behind {s r : TokenStream} (hterminals : terminals r.tokens = terminals s.tokens)
    (hbroken : r.ending.isBroken = s.ending.isBroken) (k n : Nat) : Alike n (s.behind k) (r.behind k) where
  front := by simp only [behind, terminals, List.map_drop] at hterminals ⊢; rw [hterminals]
  ending _ := hbroken.symm

end TokenStream
end SyntaxGraph
