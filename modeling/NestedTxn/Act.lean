/-!
# Operations on a state

* `Act σ ε α`: an operation on a state `σ` that answers with an `α` or fails with an `ε`. What
  it changed before it failed stays changed.
* `Act.exec`: the answer and the state after the operation. One `exec` lemma for each way to
  build an operation says what that is; `exec_bind` is the one for sequences.
* `Act.zoom`: an operation on a part of the state. `Act.wrap`: the failures renamed.
  `Act.attempt`: the failure as an answer.
-/

namespace NestedTxn

/-- An operation on a state that may fail; a failure keeps the changes made before it. -/
abbrev Act (σ ε α : Type) := ExceptT ε (StateM σ) α

namespace Act

variable {σ τ ε ε' α β : Type}

/-- The answer of an operation and the state after it. -/
def exec (a : Act σ ε α) (s : σ) : Except ε α × σ :=
  (ExceptT.run a).run s

/-- The operation with the given answers and changes. -/
def ofExec (f : σ → Except ε α × σ) : Act σ ε α :=
  ExceptT.mk fun s => f s

/-- Run an operation on the part of the state that `view` shows and `update` replaces. -/
def zoom (view : σ → τ) (update : τ → σ → σ) (rename : ε → ε')
    (a : Act τ ε α) : Act σ ε' α :=
  ofExec fun s =>
    let r := a.exec (view s)
    (r.1.mapError rename, update r.2 s)

/-- Run an operation of the second of two states. -/
def onSnd (a : Act τ ε α) : Act (σ × τ) ε α :=
  ofExec fun s =>
    let r := a.exec s.2
    (r.1, (s.1, r.2))

/-- Run an operation on a local state `s` beside the outer one; `s` is lost at the end. -/
def withLocal (s : σ) (a : Act (σ × τ) ε α) : Act τ ε α :=
  ofExec fun t =>
    let r := a.exec (s, t)
    (r.1, r.2.2)

/-- The operation with its failures renamed. -/
def wrap (f : ε → ε') (a : Act σ ε α) : Act σ ε' α :=
  a.zoom id (fun t _ => t) f

/-- The failure of an operation as an answer. -/
def attempt (a : Act σ ε α) : Act σ ε' (Except ε α) :=
  ofExec fun s =>
    let r := a.exec s
    (.ok r.1, r.2)

@[simp] theorem exec_ofExec (f : σ → Except ε α × σ) (s : σ) : (ofExec f).exec s = f s := rfl

@[simp] theorem exec_zoom (view : σ → τ) (update : τ → σ → σ) (f : ε → ε') (a : Act τ ε α)
    (s : σ) :
    (a.zoom view update f).exec s =
      ((a.exec (view s)).1.mapError f, update (a.exec (view s)).2 s) := rfl

@[simp] theorem exec_onSnd (a : Act τ ε α) (s : σ × τ) :
    (onSnd a).exec s = ((a.exec s.2).1, (s.1, (a.exec s.2).2)) := rfl

@[simp] theorem exec_withLocal (s : σ) (a : Act (σ × τ) ε α) (t : τ) :
    (withLocal s a).exec t = ((a.exec (s, t)).1, (a.exec (s, t)).2.2) := rfl

@[simp] theorem exec_wrap (f : ε → ε') (a : Act σ ε α) (s : σ) :
    (a.wrap f).exec s = ((a.exec s).1.mapError f, (a.exec s).2) := rfl

@[simp] theorem mapError_ok (f : ε → ε') (x : α) : (Except.ok x).mapError f = .ok x := rfl

@[simp] theorem mapError_error (f : ε → ε') (e : ε) :
    (Except.error e : Except ε α).mapError f = .error (f e) := rfl

@[simp] theorem exec_attempt (a : Act σ ε α) (s : σ) :
    (attempt a : Act σ ε' _).exec s = (.ok (a.exec s).1, (a.exec s).2) := rfl

@[simp] theorem exec_pure (x : α) (s : σ) : (pure x : Act σ ε α).exec s = (.ok x, s) := rfl

@[simp] theorem exec_throw (e : ε) (s : σ) :
    (throw e : Act σ ε α).exec s = (.error e, s) := rfl

@[simp] theorem exec_get (s : σ) : (get : Act σ ε σ).exec s = (.ok s, s) := rfl

@[simp] theorem exec_set (t s : σ) : (set t : Act σ ε PUnit).exec s = (.ok ⟨⟩, t) := rfl

@[simp] theorem exec_modify (f : σ → σ) (s : σ) :
    (modify f : Act σ ε PUnit).exec s = (.ok ⟨⟩, f s) := rfl

theorem exec_bind (a : Act σ ε α) (f : α → Act σ ε β) (s : σ) :
    (a >>= f).exec s =
      match a.exec s with
      | (.ok x, t) => (f x).exec t
      | (.error e, t) => (.error e, t) := by
  change (ExceptT.bind a f).run.run s = _
  simp only [ExceptT.bind, ExceptT.run, ExceptT.mk, StateT.run, bind, StateT.bind, exec]
  rcases a s with ⟨r, t⟩
  cases r <;> rfl

theorem exec_map (f : α → β) (a : Act σ ε α) (s : σ) :
    (f <$> a).exec s = ((a.exec s).1.map f, (a.exec s).2) := by
  rw [map_eq_pure_bind, exec_bind]
  rcases a.exec s with ⟨r, t⟩
  cases r <;> rfl

end Act

end NestedTxn
