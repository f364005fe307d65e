/-
# The outline of a program says what the program is

Lines show their depths, since nothing but the indentation starts with a space,
and so they tell the entries of the outline. An entry of a statement, of a type or
of a declaration shows the label, and the entries below it show the pieces. The
text of an expression shows the expression.

All of this needs names that are names, and integers without a sign. What is read
from a source has no others.

Key definitions: `Text.Tidy`, `Entry.Tidy`, `Element.Legible`.
Key theorems: `Program.entry_eq_of_outlineText_eq`, `Stmt.entry_inj`,
`Program.entry_inj`, `outlineText_eq_iff_of_parseSource`.
-/
import SyntaxGraph.Proofs.Graph.Faithful
import SyntaxGraph.Proofs.Outline.Entries
import SyntaxGraph.Proofs.Outline.Told
import SyntaxGraph.Proofs.Source.Spelled

namespace SyntaxGraph

/-! ### Legible elements -/

/-- The element has no name and no number but those that can stand in a source, and is
no float. -/
structure Element.Legible (x : Element) : Prop where
  isSpelled : x.IsSpelled
  isFloat : x.isFloat = false

/-- An expression that is legible throughout is printable. -/
theorem Expr.printable_of_legible (e : Expr) :
    (Element.expression e).Throughout Element.Legible → e.Printable := by
  induction e using Expr.induction with
  | step e ih =>
    intro h
    obtain ⟨⟨hspelled, hfloat⟩, hpieces⟩ := Element.throughout_iff.mp h
    have hbelow : ∀ f, .expression f ∈ e.pieces → f.Printable := fun f hf => ih f hf (hpieces _ hf)
    cases e with
    | arith | compare | logical => exact ⟨hbelow _ (.head _), hbelow _ (.tail _ (.head _))⟩
    | signed _ f | not f => exact hbelow f (.head _)
    | number n =>
      cases n with
      | int => exact hspelled
      | float => cases hfloat
    | var => exact hspelled
    | entry => exact ⟨hspelled, hbelow _ (.head _)⟩
    | call f es =>
      exact ⟨hspelled, allPrintable_iff.mpr fun e he => hbelow e (List.mem_map_of_mem he)⟩

/-! ### Lines -/

/-- The text takes one line, and starts with no space. -/
structure Text.Tidy (text : String) : Prop where
  oneLine : '\n' ∉ text.toList
  unindented : text.toList.head? ≠ some ' '

instance (text : String) : Decidable (Text.Tidy text) :=
  decidable_of_iff ('\n' ∉ text.toList ∧ text.toList.head? ≠ some ' ')
    ⟨fun h => ⟨h.1, h.2⟩, fun h => ⟨h.1, h.2⟩⟩

/-- All lines of the entry are tidy. -/
inductive Entry.Tidy : Entry → Prop where
  | mk {text : String} {below : List Entry} : Text.Tidy text → (∀ e ∈ below, e.Tidy) →
      Tidy (mk text below)

theorem Entry.tidy_of_mem_linesAll {depth : Nat} : ∀ {es : List Entry}, (∀ e ∈ es, e.Tidy) →
    ∀ l ∈ linesAll depth es, Text.Tidy l.2
  | [], _, _, hl => nomatch hl
  | mk text below :: es, h, l, hl => by
    obtain ⟨⟨htext, hbelow⟩, hes⟩ := List.forall_mem_cons.mp h
    rcases List.mem_append.mp hl with hl | hl
    · rcases List.mem_cons.mp hl with rfl | hl
      · exact htext
      · exact tidy_of_mem_linesAll hbelow l hl
    · exact tidy_of_mem_linesAll hes l hl

theorem Line.toList_text (l : Line) :
    l.text.toList = List.replicate (2 * l.depth) ' ' ++ l.shown.2.toList := by
  simp [text, shown]

/-- A tidy line is told by its text. -/
theorem Line.shown_eq_of_text_eq {l m : Line} (hl : Text.Tidy l.shown.2) (hm : Text.Tidy m.shown.2)
    (h : l.text = m.text) : l.shown = m.shown := by
  have hspaces : ∀ n, ∀ c ∈ List.replicate n ' ', decide (c = ' ') = true :=
    fun n c hc => decide_eq_true (List.eq_of_mem_replicate hc)
  have hstop : ∀ text : String, Text.Tidy text →
      text.toList.head?.any (fun c => decide (c = ' ')) = false := by
    intro text htext
    cases hlist : text.toList with
    | nil => rfl
    | cons c cs => exact decide_eq_false fun hc => htext.unindented (by rw [hlist, hc]; rfl)
  have hlist := congrArg String.toList h
  rw [toList_text, toList_text] at hlist
  obtain ⟨hindent, htext⟩ :=
    run_append_inj (hspaces _) (hspaces _) (hstop _ hl) (hstop _ hm) hlist
  have hdepth : l.depth = m.depth := by
    have hlength := congrArg List.length hindent
    simp only [List.length_replicate] at hlength
    omega
  exact Prod.ext hdepth (String.toList_inj.mp htext)

/-- The text of a tidy outline tells its entries. -/
theorem Program.entry_eq_of_outlineText_eq {p q : Program} (hp : p.entry.Tidy) (hq : q.entry.Tidy)
    (h : p.outlineText = q.outlineText) : p.entry = q.entry := by
  have htidy : ∀ {p : Program}, p.entry.Tidy → ∀ l ∈ p.outline, Text.Tidy l.shown.2 := by
    intro p hp l hl
    have hmem : l.shown ∈ Entry.linesAll 0 [p.entry] := by
      rw [Entry.linesAll_eq_flatMap, List.flatMap_singleton, ← shown_outline]
      exact List.mem_map_of_mem hl
    exact Entry.tidy_of_mem_linesAll (List.forall_mem_singleton.mpr hp) _ hmem
  have honeLine : ∀ {p : Program}, p.entry.Tidy → ∀ t ∈ p.outline.map Line.text, '\n' ∉ t.toList := by
    intro p hp
    refine List.forall_mem_map.mpr fun l hl => ?_
    rw [Line.toList_text, List.mem_append, not_or]
    exact ⟨fun hmem => absurd (List.eq_of_mem_replicate hmem) (by decide), (htidy hp l hl).oneLine⟩
  have htexts := Text.unlines_inj (honeLine hp) (honeLine hq) h
  have hshown : p.outline.map Line.shown = q.outline.map Line.shown :=
    map_eq_map_of (fun l hl m hm => Line.shown_eq_of_text_eq (htidy hp l hl) (htidy hq m hm)) htexts
  rw [shown_outline, shown_outline] at hshown
  exact Entry.lines_inj hshown

/-! ### Legible elements make tidy entries -/

theorem Text.Tidy.append {s t : String} (hs : Tidy s) (ht : Tidy t) : Tidy (s ++ t) := by
  refine ⟨by simp [hs.oneLine, ht.oneLine], ?_⟩
  rw [String.toList_append]
  cases hlist : s.toList with
  | nil => exact ht.unindented
  | cons c cs =>
    have hc := hs.unindented
    rw [hlist] at hc
    exact hc

theorem Role.tidy_text (r : Role) : Text.Tidy r.text := by
  have hword : Text.Tidy r.parts.1 := by
    cases r <;> simp only [parts] <;> decide
  have hnumber : Text.Tidy (Text.within '[' ']' (r.parts.2.map Decimal.natText)) := by
    cases r.parts.2 with
    | none => exact ⟨by decide, by decide⟩
    | some i => exact ⟨by simp [Text.within, Decimal.newline_not_mem_natText], by simp [Text.within]⟩
  rw [text_eq]
  exact hword.append hnumber

theorem Lead.tidy (lead : Lead) (hlead : lead ≠ .nothing) {content : String}
    (h : '\n' ∉ content.toList) : Text.Tidy (lead.text ++ content) := by
  cases lead with
  | nothing => exact absurd rfl hlead
  | member i => exact ⟨by simp [text, Decimal.newline_not_mem_natText, h], by simp [text]⟩
  | role r =>
    have hcontent : Text.Tidy (": " ++ content) := ⟨by simp [h], by simp⟩
    rw [text, String.append_assoc]
    exact r.tidy_text.append hcontent

/-- The label of a legible element takes one line, if it is no expression. -/
theorem Element.Legible.newline_not_mem_label {x : Element} (h : x.Legible)
    (hx : ∀ e, x ≠ .expression e) : '\n' ∉ x.label.toList := by
  have hdetail : ∀ d, x.detail = some d → '\n' ∉ d.toList := by
    intro d hd
    cases x with
    | program => cases hd
    | function | parameter | declaration =>
      obtain rfl := Option.some.inj hd
      exact Expr.newline_not_mem_name h.isSpelled
    | typeName t =>
      obtain rfl := Option.some.inj hd
      have hbase : '\n' ∉ t.base.text.toList := by
        cases t.base <;> decide
      unfold TypeName.detail
      split <;> simp [hbase]
    | statement s =>
      cases s with
      | print text =>
        obtain rfl := Option.some.inj hd
        exact Text.newline_not_mem_quoted text
      | update op =>
        obtain rfl := Option.some.inj hd
        cases op <;> decide
      | _ => cases hd
    | expression e => exact absurd rfl (hx e)
  have hname : ∀ k : Kind, '\n' ∉ k.name.toList := by
    intro k
    cases k <;> decide
  rw [label_eq]
  cases hd : x.detail with
  | none => simp [Text.within, hname]
  | some d => simp [Text.within, hname, hdetail d hd]

theorem Expr.tidy_entryAs (r : Role) {e : Expr} (he : e.Printable) : (e.entryAs (.role r)).Tidy :=
  .mk (Lead.tidy (.role r) nofun (e.newline_not_mem_inlineChars he)) nofun

theorem Element.tidy_entry (lead : Lead) (hlead : lead ≠ .nothing) {x : Element} (h : x.Legible)
    (hx : ∀ e, x ≠ .expression e) {below : List Entry} (hbelow : ∀ e ∈ below, e.Tidy) :
    (x.entry lead below).Tidy :=
  .mk (Lead.tidy lead hlead (h.newline_not_mem_label hx)) hbelow

theorem Stmt.mem_entriesBelow {s : Stmt} {f : Entry} (hf : f ∈ s.entriesBelow) :
    (∃ r e, .expression e ∈ s.pieces ∧ f = e.entryAs (.role r)) ∨
      ∃ r t, .statement t ∈ s.pieces ∧ f = t.entry (.role r) := by
  cases s with
  | block ss =>
    obtain ⟨i, hi, rfl⟩ := List.mem_mapIdx.mp hf
    exact .inr ⟨_, ss[i], List.mem_map_of_mem (List.getElem_mem hi), rfl⟩
  | print | leave | skip => cases hf
  | assign | update | ifThen | ifThenElse | whileDo | read | write | ret =>
    simp only [entriesBelow, List.mem_cons, List.not_mem_nil, or_false] at hf
    simp only [pieces, List.mem_cons, List.not_mem_nil, or_false]
    grind

theorem Stmt.tidy_entry (s : Stmt) : (Element.statement s).Throughout Element.Legible →
    ∀ lead : Lead, lead ≠ .nothing → (s.entry lead).Tidy := by
  induction s using Stmt.induction with
  | step s ih =>
    intro h lead hlead
    obtain ⟨hs, hpieces⟩ := Element.throughout_iff.mp h
    rw [entry_eq]
    refine Element.tidy_entry lead hlead hs nofun fun f hf => ?_
    rcases mem_entriesBelow hf with ⟨r, e, he, rfl⟩ | ⟨r, t, ht, rfl⟩
    · exact Expr.tidy_entryAs _ (e.printable_of_legible (hpieces _ he))
    · exact ih t ht (hpieces _ ht) _ nofun

theorem TypeName.tidy_entry {t : TypeName} (h : (Element.typeName t).Throughout Element.Legible)
    (lead : Lead) (hlead : lead ≠ .nothing) : (t.entry lead).Tidy := by
  obtain ⟨ht, hpieces⟩ := Element.throughout_iff.mp h
  refine Element.tidy_entry lead hlead ht nofun ?_
  obtain ⟨base, _ | e⟩ := t
  · exact nofun
  · exact List.forall_mem_singleton.mpr
      (Expr.tidy_entryAs _ (e.printable_of_legible (hpieces _ (.head _))))

theorem Declaration.tidy_entry {shownAs : Declaration → Element} {d : Declaration}
    (hd : (shownAs d).Legible) (htype : (Element.typeName d.type).Throughout Element.Legible)
    (hshown : ∀ e, shownAs d ≠ .expression e) (i : Nat) : (d.entry shownAs (.member i)).Tidy :=
  Element.tidy_entry (.member i) nofun hd hshown
    (List.forall_mem_singleton.mpr (TypeName.tidy_entry htype (.role .type) nofun))

theorem Entry.tidy_mapIdx {α : Type} {entry : Nat → α → Entry} {as : List α}
    (h : ∀ i, ∀ a ∈ as, (entry i a).Tidy) : ∀ e ∈ as.mapIdx entry, e.Tidy := by
  intro e he
  obtain ⟨i, hi, rfl⟩ := List.mem_mapIdx.mp he
  exact h i as[i] (List.getElem_mem hi)

theorem Entry.tidy_ofSection {title : String} (htitle : title ∈ ["parameters", "declarations", "body"])
    {members : List Entry} (h : ∀ e ∈ members, e.Tidy) : (ofSection title members).Tidy := by
  have htidy : ∀ title ∈ ["parameters", "declarations", "body"],
      Text.Tidy (title ++ ": (none)") ∧ Text.Tidy (title ++ ":") := by
    decide
  obtain ⟨hnone, hsome⟩ := htidy title htitle
  refine .mk ?_ h
  split
  · exact hnone
  · exact hsome

theorem Function.tidy_entry {f : Function} (h : (Element.function f).Throughout Element.Legible)
    (i : Nat) : (f.entry i).Tidy := by
  obtain ⟨hf, hpieces⟩ := Element.throughout_iff.mp h
  simp only [Element.pieces, List.mem_append, List.mem_map] at hpieces
  have hparameters : ∀ i, ∀ d ∈ f.parameters, (d.entry .parameter (.member i)).Tidy := by
    intro i d hd
    obtain ⟨hd, htype⟩ := Element.throughout_iff.mp (hpieces _ (.inl ⟨d, hd, rfl⟩))
    exact Declaration.tidy_entry hd (htype _ (.head _)) (by simp) i
  have hdeclarations : ∀ i, ∀ d ∈ f.declarations, (d.entry .declaration (.member i)).Tidy := by
    intro i d hd
    obtain ⟨hd, htype⟩ := Element.throughout_iff.mp (hpieces _ (.inr (.inl ⟨d, hd, rfl⟩)))
    exact Declaration.tidy_entry hd (htype _ (.head _)) (by simp) i
  have hbody : ∀ i, ∀ s ∈ f.body, (s.entry (.member i)).Tidy :=
    fun i s hs => s.tidy_entry (hpieces _ (.inr (.inr ⟨s, hs, rfl⟩))) _ (by simp)
  refine Element.tidy_entry (.member i) (by simp) hf (by simp) ?_
  simp only [List.forall_mem_cons]
  exact ⟨Entry.tidy_ofSection (by decide) (Entry.tidy_mapIdx hparameters),
    Entry.tidy_ofSection (by decide) (Entry.tidy_mapIdx hdeclarations),
    Entry.tidy_ofSection (by decide) (Entry.tidy_mapIdx hbody), List.forall_mem_nil _⟩

theorem Program.tidy_entry {p : Program} (h : (Element.program p).Throughout Element.Legible) :
    p.entry.Tidy := by
  obtain ⟨-, hpieces⟩ := Element.throughout_iff.mp h
  have htext : Text.Tidy "Program" := by decide
  refine .mk htext (Entry.tidy_mapIdx fun i f hf => ?_)
  exact Function.tidy_entry (hpieces _ (List.mem_map_of_mem hf)) i

/-! ### Entries tell elements -/

/-- The entry of an element shows its kind, its detail and what is below it. -/
theorem Element.entry_inj {lead : Lead} {x y : Element} {b c : List Entry}
    (h : x.entry lead b = y.entry lead c) : x.kind = y.kind ∧ x.detail = y.detail ∧ b = c := by
  obtain ⟨htext, hbelow⟩ := Entry.mk.inj h
  obtain ⟨hkind, hdetail⟩ := label_inj ((String.append_right_inj _).mp htext)
  exact ⟨hkind, hdetail, hbelow⟩

theorem Expr.entryAs_inj {lead : Lead} {e f : Expr}
    (he : (Element.expression e).Throughout Element.Legible)
    (hf : (Element.expression f).Throughout Element.Legible)
    (h : e.entryAs lead = f.entryAs lead) : e = f :=
  inlineText_inj (e.printable_of_legible he) (f.printable_of_legible hf)
    ((String.append_right_inj _).mp (Entry.mk.inj h).1)

/-- The entries of the members of a list tell the members. -/
theorem mapIdx_inj {α β : Type} {f : Nat → α → β} {as bs : List α}
    (heq : as.mapIdx f = bs.mapIdx f) (h : ∀ i, ∀ a ∈ as, ∀ b ∈ bs, f i a = f i b → a = b) :
    as = bs := by
  refine List.ext_getElem (by simpa using congrArg List.length heq) fun i hi hi' => ?_
  have hitem : (as.mapIdx f)[i]? = (bs.mapIdx f)[i]? := by rw [heq]
  simp only [List.getElem?_mapIdx, List.getElem?_eq_getElem hi, List.getElem?_eq_getElem hi',
    Option.map_some, Option.some.injEq] at hitem
  exact h i _ (List.getElem_mem hi) _ (List.getElem_mem hi') hitem

/-- The entries below statements of a kind tell the pieces, if the entries of pieces tell
these. -/
theorem Stmt.pieces_eq_of_entriesBelow_eq {s t : Stmt} (hkind : s.kind = t.kind)
    (hexpr : ∀ {e f : Expr} {lead : Lead}, .expression e ∈ s.pieces → .expression f ∈ t.pieces →
      e.entryAs lead = f.entryAs lead → e = f)
    (hstmt : ∀ {u v : Stmt} {lead : Lead}, .statement u ∈ s.pieces → .statement v ∈ t.pieces →
      u.entry lead = v.entry lead → u = v)
    (h : s.entriesBelow = t.entriesBelow) : s.pieces = t.pieces := by
  cases s with
  | print | leave | skip =>
    cases t with
    | print | leave | skip => rfl
    | _ => cases hkind
  | assign l e | update _ l e =>
    cases t with
    | assign l' e' | update _ l' e' =>
      simp only [entriesBelow, List.cons.injEq, and_true] at h
      obtain ⟨hl, he⟩ := h
      rw [pieces, pieces, hexpr (.head _) (.head _) hl, hexpr (.tail _ (.head _)) (.tail _ (.head _)) he]
    | _ => cases hkind
  | ifThen c s =>
    cases t with
    | ifThen c' s' =>
      simp only [entriesBelow, List.cons.injEq, and_true] at h
      obtain ⟨hc, hs⟩ := h
      rw [pieces, pieces, hexpr (.head _) (.head _) hc, hstmt (.tail _ (.head _)) (.tail _ (.head _)) hs]
    | ifThenElse => simp [entriesBelow] at h
    | _ => cases hkind
  | ifThenElse c s u =>
    cases t with
    | ifThenElse c' s' u' =>
      simp only [entriesBelow, List.cons.injEq, and_true] at h
      obtain ⟨hc, hs, hu⟩ := h
      rw [pieces, pieces, hexpr (.head _) (.head _) hc, hstmt (.tail _ (.head _)) (.tail _ (.head _)) hs,
        hstmt (.tail _ (.tail _ (.head _))) (.tail _ (.tail _ (.head _))) hu]
    | ifThen => simp [entriesBelow] at h
    | _ => cases hkind
  | whileDo c s =>
    cases t with
    | whileDo c' s' =>
      simp only [entriesBelow, List.cons.injEq, and_true] at h
      obtain ⟨hc, hs⟩ := h
      rw [pieces, pieces, hexpr (.head _) (.head _) hc, hstmt (.tail _ (.head _)) (.tail _ (.head _)) hs]
    | _ => cases hkind
  | read l =>
    cases t with
    | read l' =>
      simp only [entriesBelow, List.cons.injEq, and_true] at h
      rw [pieces, pieces, hexpr (.head _) (.head _) h]
    | _ => cases hkind
  | write e | ret e =>
    cases t with
    | write e' | ret e' =>
      simp only [entriesBelow, List.cons.injEq, and_true] at h
      rw [pieces, pieces, hexpr (.head _) (.head _) h]
    | _ => cases hkind
  | block ss =>
    cases t with
    | block us =>
      simp only [entriesBelow] at h
      have hss : ss = us := mapIdx_inj h fun _ _ hu _ hv =>
        hstmt (List.mem_map_of_mem hu) (List.mem_map_of_mem hv)
      rw [hss]
    | _ => cases hkind

/-- The entry of a statement tells the statement. -/
theorem Stmt.entry_inj (s : Stmt) : (Element.statement s).Throughout Element.Legible →
    ∀ {t : Stmt} {lead : Lead}, (Element.statement t).Throughout Element.Legible →
      s.entry lead = t.entry lead → s = t := by
  induction s using Stmt.induction with
  | step s ih =>
    intro hs t lead ht h
    obtain ⟨-, hs⟩ := Element.throughout_iff.mp hs
    obtain ⟨-, ht⟩ := Element.throughout_iff.mp ht
    rw [entry_eq, entry_eq] at h
    obtain ⟨hkind, hdetail, hbelow⟩ := Element.entry_inj h
    have hpieces : s.pieces = t.pieces := pieces_eq_of_entriesBelow_eq hkind
      (fun he hf => Expr.entryAs_inj (hs _ he) (ht _ hf))
      (fun hu hv => ih _ hu (hs _ hu) (ht _ hv)) hbelow
    exact eq_of_pieces hkind hdetail hpieces

theorem TypeName.entry_inj {t u : TypeName} {lead : Lead}
    (ht : (Element.typeName t).Throughout Element.Legible)
    (hu : (Element.typeName u).Throughout Element.Legible) (h : t.entry lead = u.entry lead) :
    t = u := by
  obtain ⟨-, ht⟩ := Element.throughout_iff.mp ht
  obtain ⟨-, hu⟩ := Element.throughout_iff.mp hu
  obtain ⟨-, hdetail, hbelow⟩ := Element.entry_inj h
  refine eq_of_pieces (Option.some.inj hdetail) ?_
  obtain ⟨base, _ | e⟩ := t <;> obtain ⟨base', _ | f⟩ := u
  · rfl
  · cases hbelow
  · cases hbelow
  · obtain rfl := Expr.entryAs_inj (ht _ (.head _)) (hu _ (.head _)) (List.cons.inj hbelow).1
    rfl

theorem Declaration.entry_inj {shownAs : Declaration → Element} {c d : Declaration} {lead : Lead}
    (hdetail : ∀ d, (shownAs d).detail = some d.name)
    (hpieces : ∀ d, (shownAs d).pieces = [.typeName d.type])
    (hc : (shownAs c).Throughout Element.Legible) (hd : (shownAs d).Throughout Element.Legible)
    (h : c.entry shownAs lead = d.entry shownAs lead) : c = d := by
  obtain ⟨-, hc⟩ := Element.throughout_iff.mp hc
  obtain ⟨-, hd⟩ := Element.throughout_iff.mp hd
  rw [hpieces] at hc hd
  obtain ⟨-, hname, hbelow⟩ := Element.entry_inj h
  rw [hdetail, hdetail] at hname
  have htype := TypeName.entry_inj (hc _ (.head _)) (hd _ (.head _)) (List.cons.inj hbelow).1
  exact eq_of_pieces (Option.some.inj hname) (by rw [htype])

theorem Function.entry_inj {f g : Function} {i : Nat}
    (hf : (Element.function f).Throughout Element.Legible)
    (hg : (Element.function g).Throughout Element.Legible) (h : f.entry i = g.entry i) : f = g := by
  obtain ⟨-, hf⟩ := Element.throughout_iff.mp hf
  obtain ⟨-, hg⟩ := Element.throughout_iff.mp hg
  simp only [Element.pieces, List.mem_append, List.mem_map] at hf hg
  obtain ⟨-, hname, hsections⟩ := Element.entry_inj h
  simp only [Entry.ofSection, List.cons.injEq, Entry.mk.injEq, and_true] at hsections
  obtain ⟨⟨-, hparameters⟩, ⟨-, hdeclarations⟩, -, hbody⟩ := hsections
  obtain ⟨name, parameters, declarations, body⟩ := f
  obtain ⟨name', parameters', declarations', body'⟩ := g
  obtain rfl : name = name' := Option.some.inj hname
  obtain rfl : parameters = parameters' := mapIdx_inj hparameters fun i c hc d hd =>
    Declaration.entry_inj (fun _ => rfl) (fun _ => rfl) (hf _ (.inl ⟨c, hc, rfl⟩))
      (hg _ (.inl ⟨d, hd, rfl⟩))
  obtain rfl : declarations = declarations' := mapIdx_inj hdeclarations fun i c hc d hd =>
    Declaration.entry_inj (fun _ => rfl) (fun _ => rfl) (hf _ (.inr (.inl ⟨c, hc, rfl⟩)))
      (hg _ (.inr (.inl ⟨d, hd, rfl⟩)))
  obtain rfl : body = body' := mapIdx_inj hbody fun i s hs t ht =>
    s.entry_inj (hf _ (.inr (.inr ⟨s, hs, rfl⟩))) (hg _ (.inr (.inr ⟨t, ht, rfl⟩)))
  rfl

/-- The entry of a program tells the program. -/
theorem Program.entry_inj {p q : Program} (hp : (Element.program p).Throughout Element.Legible)
    (hq : (Element.program q).Throughout Element.Legible) (h : p.entry = q.entry) : p = q := by
  obtain ⟨-, hp⟩ := Element.throughout_iff.mp hp
  obtain ⟨-, hq⟩ := Element.throughout_iff.mp hq
  obtain ⟨-, -, hbelow⟩ := Element.entry_inj h
  have hfunctions : p.functions = q.functions := mapIdx_inj hbelow fun _ _ hf _ hg =>
    Function.entry_inj (hp _ (List.mem_map_of_mem hf)) (hq _ (List.mem_map_of_mem hg))
  exact congrArg Program.mk hfunctions

/-! ### Sources -/

/-- What is read from a source is legible, if no number is a float. -/
theorem Program.legible_of_parseSource {a : String} {p : Program} (h : parseSource a = .ok p)
    (hp : p.node.Integral) : (Element.program p).Throughout Element.Legible :=
  fun m hm => ⟨parseSource_isSpelled h m hm, hp m hm⟩

/-- **The outline loses nothing of what is read from sources.** Programs without floats
that are read from sources have the same outline only if they are the same. -/
theorem outlineText_eq_iff_of_parseSource {a b : String} {p q : Program} (ha : parseSource a = .ok p)
    (hb : parseSource b = .ok q) (hp : p.node.Integral) (hq : q.node.Integral) :
    p.outlineText = q.outlineText ↔ p = q := by
  constructor
  · intro h
    have hp := p.legible_of_parseSource ha hp
    have hq := q.legible_of_parseSource hb hq
    exact Program.entry_inj hp hq
      (Program.entry_eq_of_outlineText_eq (Program.tidy_entry hp) (Program.tidy_entry hq) h)
  · rintro rfl
    rfl

/-- A `not` of all that follows, and one of the first operand only. -/
theorem outlineText_ne_of_not : ∃ p q,
    parseSource "fun f() begin while not a or b do skip end" = .ok p ∧
      parseSource "fun f() begin while (not a) or b do skip end" = .ok q ∧
        p.outlineText ≠ q.outlineText := by
  have hall : parseSource "fun f() begin while not a or b do skip end" =
      .ok ⟨[⟨"f", [], [], [.whileDo (.not (.logical .or (.var "a") (.var "b"))) .skip]⟩]⟩ :=
    (congrArg parse (Scanner.items_eq_itemsWithin _)).trans (by decide +kernel)
  have hfirst : parseSource "fun f() begin while (not a) or b do skip end" =
      .ok ⟨[⟨"f", [], [], [.whileDo (.logical .or (.not (.var "a")) (.var "b")) .skip]⟩]⟩ :=
    (congrArg parse (Scanner.items_eq_itemsWithin _)).trans (by decide +kernel)
  refine ⟨_, _, hall, hfirst, fun h => ?_⟩
  cases (outlineText_eq_iff_of_parseSource hall hfirst (by decide) (by decide)).mp h

end SyntaxGraph
