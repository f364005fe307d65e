/-
# Actions that may fail

An action changes a state and gives a result or fails; a failure keeps the state as it is
by then.

Key definitions: `Action`, `Action.exec`.
Key theorems: `Action.exec_bind`.
-/

namespace SyntaxGraph

/-- An action on states `σ` that may fail with an `ε`. -/
abbrev Action (ε σ α : Type) :=
  ExceptT ε (StateM σ) α

namespace Action

variable {ε σ α β : Type}

/-- What comes out from a state, and the state then. -/
def exec (act : Action ε σ α) (s : σ) : Except ε α × σ :=
  Id.run (act.run s)

@[simp] theorem exec_pure (a : α) (s : σ) : exec (pure a : Action ε σ α) s = (.ok a, s) := rfl

@[simp] theorem exec_throw (e : ε) (s : σ) :
    exec (throw e : Action ε σ α) s = (.error e, s) := rfl

@[simp] theorem exec_modify (f : σ → σ) (s : σ) :
    exec (modify f : Action ε σ Unit) s = (.ok (), f s) := rfl

/-- The second action starts where the first has come to. -/
theorem exec_bind (act : Action ε σ α) (f : α → Action ε σ β) (s : σ) :
    exec (act >>= f) s = match exec act s with
      | (.ok a, t) => exec (f a) t
      | (.error e, t) => (.error e, t) := by
  show Id.run (ExceptT.bindCont f (exec act s).1 (exec act s).2) = _
  rcases exec act s with ⟨_ | _, t⟩ <;> rfl

theorem exec_bind_of_ok {act : Action ε σ α} {f : α → Action ε σ β} {s t : σ} {a : α}
    (h : exec act s = (.ok a, t)) : exec (act >>= f) s = exec (f a) t := by
  rw [exec_bind, h]

theorem exec_bind_of_error {act : Action ε σ α} {f : α → Action ε σ β} {s t : σ} {e : ε}
    (h : exec act s = (.error e, t)) : exec (act >>= f) s = (.error e, t) := by
  rw [exec_bind, h]

end Action
end SyntaxGraph
