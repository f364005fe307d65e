/-
# What writing a file changes

A file is written in a directory that is there, at a place that is none. So no place
becomes a directory by it, and none ceases to be one: after the writing all places but that
of the file hold what they held. In particular the path still leads where it did, and what is
read from it is what was written.

Key definitions: `Place.entry`, `Files.IsFree`.
Key theorems: `Files.isDirectory_of_encloses`, `Files.enter_eq_ok`,
`Files.IsFree.isDirectory_put`, `Files.write_spec`.
-/
import Mathlib.Data.List.Basic
import SyntaxGraph.Command.Files

namespace SyntaxGraph
namespace Command

/-! ### Places below one another -/

namespace Place

theorem encloses_iff {p q : Place} : p.encloses q = true ↔
    p.anchor = q.anchor ∧ p.names <+: q.names ∧ p.names.length < q.names.length := by
  simp [encloses, and_assoc]

theorem Encloses.trans {p q r : Place} (h : p.encloses q = true) (h' : q.encloses r = true) :
    p.encloses r = true := by
  obtain ⟨hanchor, hnames, hlength⟩ := encloses_iff.mp h
  obtain ⟨hanchor', hnames', hlength'⟩ := encloses_iff.mp h'
  exact encloses_iff.mpr
    ⟨hanchor.trans hanchor', hnames.trans hnames', Nat.lt_trans hlength hlength'⟩

/-- The place of a name in a directory. -/
def entry (directory : Place) (name : String) : Place :=
  { directory with names := directory.names ++ [name] }

theorem encloses_entry {p directory : Place} {name : String}
    (h : p.encloses (directory.entry name) = true) :
    p = directory ∨ p.encloses directory = true := by
  obtain ⟨hanchor, hnames, hlength⟩ := encloses_iff.mp h
  have hshort : p.names.length ≤ directory.names.length := by
    simpa [entry, Nat.lt_succ_iff] using hlength
  have hfront : p.names <+: directory.names :=
    List.prefix_of_prefix_length_le hnames (List.prefix_append _ _) hshort
  rcases Nat.lt_or_ge p.names.length directory.names.length with hlt | hge
  · exact .inr (encloses_iff.mpr ⟨hanchor, hfront, hlt⟩)
  · refine .inl ?_
    obtain ⟨anchor, names⟩ := p
    obtain rfl : anchor = directory.anchor := hanchor
    obtain rfl : names = directory.names := hfront.eq_of_length_le hge
    rfl

end Place

namespace Files

variable {files : Files} {p q directory : Place} {name : String}

/-! ### Directories -/

theorem isDirectory_iff : files.isDirectory p = true ↔
    p.names = [] ∨ ∃ entry ∈ files.entries, p.encloses entry.1 = true := by
  simp [isDirectory]

/-- What a directory lies in is a directory. -/
theorem isDirectory_of_encloses (h : files.isDirectory p = true) (hq : q.encloses p = true) :
    files.isDirectory q = true := by
  refine isDirectory_iff.mpr ?_
  rcases isDirectory_iff.mp h with hnil | ⟨entry, hentry, hp⟩
  · have hlength := (Place.encloses_iff.mp hq).2.2
    rw [hnil] at hlength
    exact absurd hlength (Nat.not_lt_zero _)
  · exact .inr ⟨entry, hentry, Place.Encloses.trans hq hp⟩

theorem isDirectory_parent (h : files.isDirectory p = true) :
    files.isDirectory p.parent = true := by
  obtain ⟨anchor, names⟩ := p
  cases names with
  | nil => cases anchor <;> exact isDirectory_iff.mpr (.inl rfl)
  | cons name names =>
    refine isDirectory_of_encloses h (Place.encloses_iff.mpr ⟨rfl, List.dropLast_prefix _, ?_⟩)
    simp [Place.parent]

theorem holding_eq_directory : files.isDirectory p = true → files.holding p = .directory :=
  fun h => if_pos h

theorem isDirectory_of_holding (h : files.holding p = .directory) : files.isDirectory p = true := by
  rw [holding] at h
  split at h
  · assumption
  · split at h <;> cases h

theorem lookUp_eq_ok {held : Holding} : files.lookUp directory name = .ok held ↔
    name.utf8ByteSize ≤ Path.nameLimit ∧ files.holding (directory.step name) = held := by
  by_cases hname : name.utf8ByteSize > Path.nameLimit
  · rw [lookUp, if_pos hname]
    exact ⟨nofun, fun h => absurd hname (Nat.not_lt_of_le h.1)⟩
  · rw [lookUp, if_neg hname]
    exact ⟨fun h => ⟨Nat.le_of_not_lt hname, Except.ok.inj h⟩, fun h => congrArg Except.ok h.2⟩

theorem step_eq_entry (h : files.isDirectory directory = true)
    (hstep : files.isDirectory (directory.step name) = false) :
    directory.step name = directory.entry name := by
  by_cases hdot : name = "."
  · rw [Place.step, if_pos hdot, h] at hstep
    cases hstep
  by_cases hdots : name = ".."
  · rw [Place.step, if_neg hdot, if_pos hdots, isDirectory_parent h] at hstep
    cases hstep
  · rw [Place.step, if_neg hdot, if_neg hdots]
    rfl

theorem enter_cons_eq_ok {names : List String} {start : Place} :
    files.enter start (name :: names) = .ok directory ↔
      files.lookUp start name = .ok .directory ∧
        files.enter (start.step name) names = .ok directory := by
  rw [enter]
  cases hlook : files.lookUp start name with
  | error fault => exact ⟨nofun, nofun⟩
  | ok held =>
    cases held with
    | directory => exact ⟨fun h => ⟨rfl, h⟩, And.right⟩
    | nothing | file contents => exact ⟨nofun, fun h => by cases h.1⟩

/-- Names lead from a directory to another, where they lead to by themselves. -/
theorem enter_eq_ok {names : List String} {start : Place}
    (h : files.enter start names = .ok directory) (hstart : files.isDirectory start = true) :
    names.foldl Place.step start = directory ∧ files.isDirectory directory = true := by
  induction names generalizing start with
  | nil =>
    obtain rfl := Except.ok.inj h
    exact ⟨rfl, hstart⟩
  | cons name names ih =>
    obtain ⟨hlook, hrest⟩ := enter_cons_eq_ok.mp h
    exact ih hrest (isDirectory_of_holding (lookUp_eq_ok.mp hlook).2)

theorem enter_of_directories {files' : Files} {names : List String} {start : Place}
    (hkept : ∀ p, files.holding p = .directory → files'.holding p = .directory)
    (h : files.enter start names = .ok directory) : files'.enter start names = .ok directory := by
  induction names generalizing start with
  | nil => exact h
  | cons name names ih =>
    obtain ⟨hlook, hrest⟩ := enter_cons_eq_ok.mp h
    obtain ⟨hname, hholding⟩ := lookUp_eq_ok.mp hlook
    exact enter_cons_eq_ok.mpr ⟨lookUp_eq_ok.mpr ⟨hname, hkept _ hholding⟩, ih hrest⟩

theorem resolve_eq_ok {text : String} {path : Path} :
    files.resolve text = .ok (path, directory) ↔ text.isEmpty = false ∧
      text.utf8ByteSize ≤ Path.lengthLimit ∧ path = Path.ofText text ∧
      files.enter path.start path.leading = .ok directory := by
  rw [resolve]
  cases hempty : text.isEmpty with
  | true => exact ⟨nofun, fun h => by cases h.1⟩
  | false =>
    by_cases hlength : text.utf8ByteSize > Path.lengthLimit
    · rw [if_pos hlength]
      exact ⟨nofun, fun h => absurd hlength (Nat.not_lt_of_le h.2.1)⟩
    · rw [if_neg hlength]
      show (files.enter (Path.ofText text).start (Path.ofText text).leading).map
        (fun d => (Path.ofText text, d)) = .ok (path, directory) ↔ _
      constructor
      · intro h
        cases henter : files.enter (Path.ofText text).start (Path.ofText text).leading with
        | error fault => rw [henter] at h; cases h
        | ok d =>
          rw [henter] at h
          obtain ⟨rfl, rfl⟩ := Prod.mk.inj (Except.ok.inj h)
          exact ⟨rfl, Nat.le_of_not_lt hlength, rfl, henter⟩
      · rintro ⟨-, -, rfl, henter⟩
        rw [henter]
        rfl

theorem write_eq_ok {files' : Files} {text : String} {contents : ByteArray}
    (h : files.write text contents = .ok files') : ∃ directory name,
      files.resolve text = .ok (Path.ofText text, directory) ∧
      (Path.ofText text).last = some name ∧ (Path.ofText text).closed = false ∧
      ∃ held, files.lookUp directory name = .ok held ∧ held ≠ .directory ∧
        files' = files.put (directory.step name) contents := by
  rw [write] at h
  cases hresolve : files.resolve text with
  | error fault => rw [hresolve] at h; cases h
  | ok found =>
    obtain ⟨path, directory⟩ := found
    obtain ⟨-, -, rfl, -⟩ := resolve_eq_ok.mp hresolve
    rw [hresolve] at h
    cases hlast : (Path.ofText text).last with
    | none => simp [hlast, bind, Except.bind] at h
    | some name =>
      cases hclosed : (Path.ofText text).closed with
      | true => simp [hlast, hclosed, bind, Except.bind, throw, throwThe, MonadExceptOf.throw] at h
      | false =>
        cases hlook : files.lookUp directory name with
        | error fault => simp [hlast, hclosed, hlook, bind, Except.bind] at h
        | ok held =>
          simp only [hlast, hclosed, hlook, bind, Except.bind] at h
          refine ⟨directory, name, rfl, rfl, rfl, held, hlook, ?_, ?_⟩
          · rintro rfl
            cases h
          · cases held with
            | directory => cases h
            | nothing | file => exact (Except.ok.inj h).symm

theorem read_eq_ok {text : String} {contents : ByteArray}
    (hresolve : files.resolve text = .ok (Path.ofText text, directory))
    (hlast : (Path.ofText text).last = some name) (hclosed : (Path.ofText text).closed = false)
    (hlook : files.lookUp directory name = .ok (.file contents)) :
    files.read text = .ok contents := by
  rw [read, hresolve]
  simp [hlast, hclosed, hlook, bind, Except.bind, pure, Except.pure]

/-! ### One more file -/

/-- The place is in a directory, and is none. -/
structure IsFree (files : Files) (place : Place) : Prop where
  around : ∀ q, q.encloses place = true → files.isDirectory q = true
  free : files.isDirectory place = false

theorem isFree_step (h : files.isDirectory directory = true)
    (hstep : files.isDirectory (directory.step name) = false) :
    files.IsFree (directory.step name) := by
  refine ⟨fun q hq => ?_, hstep⟩
  rw [step_eq_entry h hstep] at hq
  rcases Place.encloses_entry hq with rfl | hq
  · exact h
  · exact isDirectory_of_encloses h hq

variable {contents : ByteArray}

/-- A file at a free place makes no directory, and takes none away. -/
theorem IsFree.isDirectory_put (h : files.IsFree p) (q : Place) :
    (files.put p contents).isDirectory q = files.isDirectory q := by
  refine Bool.eq_iff_iff.mpr ⟨fun hq => ?_, fun hq => ?_⟩
  · rcases isDirectory_iff.mp hq with hnil | ⟨entry, hentry, hq⟩
    · exact isDirectory_iff.mpr (.inl hnil)
    · rcases List.mem_cons.mp hentry with rfl | hentry
      · exact h.around q hq
      · exact isDirectory_iff.mpr (.inr ⟨entry, (List.mem_filter.mp hentry).1, hq⟩)
  · rcases isDirectory_iff.mp hq with hnil | ⟨entry, hentry, hq⟩
    · exact isDirectory_iff.mpr (.inl hnil)
    · by_cases hp : entry.1 = p
      · exact isDirectory_iff.mpr (.inr ⟨(p, contents), .head _, hp ▸ hq⟩)
      · refine isDirectory_iff.mpr (.inr ⟨entry, .tail _ (List.mem_filter.mpr ⟨hentry, ?_⟩), hq⟩)
        exact decide_eq_true hp

theorem lookup_filter_ne {α β : Type} [DecidableEq α] {a b : α} (h : b ≠ a) :
    ∀ entries : List (α × β), (entries.filter fun entry => entry.1 ≠ a).lookup b = entries.lookup b
  | [] => rfl
  | (c, x) :: entries => by
    by_cases hc : c = a
    · subst hc
      rw [List.filter_cons_of_neg (by simp), lookup_filter_ne h entries, List.lookup_cons,
        beq_eq_false_iff_ne.mpr h]
    · rw [List.filter_cons_of_pos (by simpa using hc), List.lookup_cons, List.lookup_cons,
        lookup_filter_ne h entries]

theorem IsFree.holding_put_self (h : files.IsFree p) :
    (files.put p contents).holding p = .file contents := by
  have hcontents : (files.put p contents).contents? p = some contents := by
    simp [contents?, put]
  rw [holding, h.isDirectory_put, h.free, hcontents]
  rfl

theorem IsFree.holding_put (h : files.IsFree p) (hq : q ≠ p) :
    (files.put p contents).holding q = files.holding q := by
  have hcontents : (files.put p contents).contents? q = files.contents? q := by
    rw [contents?, put, List.lookup_cons, beq_eq_false_iff_ne.mpr hq]
    exact lookup_filter_ne hq files.entries
  rw [holding, holding, h.isDirectory_put, hcontents]

/-- **What is written can be read, and nothing else changes.** -/
theorem write_spec {files' : Files} {text : String} (h : files.write text contents = .ok files') :
    files'.read text = .ok contents ∧
      ∀ q, q ≠ (Path.ofText text).place → files'.holding q = files.holding q := by
  obtain ⟨directory, name, hresolve, hlast, hclosed, held, hlook, hheld, rfl⟩ := write_eq_ok h
  obtain ⟨hempty, hlength, -, henter⟩ := resolve_eq_ok.mp hresolve
  obtain ⟨hname, hholding⟩ := lookUp_eq_ok.mp hlook
  have hstart : files.isDirectory (Path.ofText text).start = true :=
    isDirectory_iff.mpr (.inl rfl)
  obtain ⟨hplace, hdirectory⟩ := enter_eq_ok henter hstart
  have hfree : files.IsFree (directory.step name) := by
    refine isFree_step hdirectory (Bool.eq_false_iff.mpr fun hstep => hheld ?_)
    rw [← hholding, holding_eq_directory hstep]
  have hkept : ∀ q, files.holding q = .directory →
      (files.put (directory.step name) contents).holding q = .directory := fun q hq =>
    holding_eq_directory ((hfree.isDirectory_put q).trans (isDirectory_of_holding hq))
  constructor
  · have hresolve' := resolve_eq_ok.mpr ⟨hempty, hlength, rfl, enter_of_directories hkept henter⟩
    exact read_eq_ok hresolve' hlast hclosed (lookUp_eq_ok.mpr ⟨hname, hfree.holding_put_self⟩)
  · intro q hq
    refine hfree.holding_put fun heq => hq ?_
    rw [heq, Path.place, hlast, List.foldl_append, hplace]
    rfl

end Files
end Command
end SyntaxGraph
