import NestedTxn.Act

/-!
# Operations and relations between states

* `Act.Keeps R a`: the state after `a` is related to the state before it, whether or not `a`
  failed. One lemma for each way to put operations together.
* `Act.Agrees R a b`: run in related states, `a` and `b` give the same answer or fail alike, and
  leave related states. `Act.Agrees.bind` continues with operations that agree on every answer.
* `Act.FailsWith Q a s`: if `a` fails in the state `s`, it fails with an error of the kind `Q`.
  `Act.FailsWith.bind` continues from the states that the first operation can leave.
* `Act.Respects R Q a`: both at once, from every state on.
* `Act.Costs I cost n a`: from states with `I`, which `a` keeps, `a` adds at most `n` to the cost.
  Costs of a sequence are added (`Act.Costs.bind`).
-/

namespace NestedTxn

namespace Act

variable {σ τ ε ε' α β : Type}

theorem exec_bind_ok {a : Act σ ε α} {f : α → Act σ ε β} {s t : σ} {x : α}
    (h : a.exec s = (.ok x, t)) : (a >>= f).exec s = (f x).exec t := by
  rw [exec_bind, h]

theorem exec_bind_error {a : Act σ ε α} {f : α → Act σ ε β} {s t : σ} {e : ε}
    (h : a.exec s = (.error e, t)) : (a >>= f).exec s = (.error e, t) := by
  rw [exec_bind, h]

/-- A sequence that answers is two operations that answer. -/
theorem exec_bind_eq_ok {a : Act σ ε α} {f : α → Act σ ε β} {s u : σ} {y : β}
    (h : (a >>= f).exec s = (.ok y, u)) :
    ∃ x t, a.exec s = (.ok x, t) ∧ (f x).exec t = (.ok y, u) := by
  rw [exec_bind] at h
  rcases hx : a.exec s with ⟨x | x, t⟩
  · rw [hx] at h
    cases h
  · rw [hx] at h
    exact ⟨x, t, rfl, h⟩

theorem exec_map_eq_ok {a : Act σ ε α} {f : α → β} {s u : σ} {y : β}
    (h : (f <$> a).exec s = (.ok y, u)) : ∃ x, a.exec s = (.ok x, u) ∧ f x = y := by
  rw [exec_map] at h
  rcases hx : a.exec s with ⟨x | x, t⟩
  · rw [hx] at h
    cases h
  · rw [hx] at h
    cases h
    exact ⟨x, rfl, rfl⟩

theorem exec_discard (a : Act σ ε α) (s : σ) :
    (discard a).exec s = ((a.exec s).1.map fun _ => (), (a.exec s).2) :=
  exec_map _ a s

/-! ## One operation -/

/-- The state after `a` is related to the state before it. -/
def Keeps (R : σ → σ → Prop) (a : Act σ ε α) : Prop := ∀ s, R s (a.exec s).2

namespace Keeps

variable {R : σ → σ → Prop}

/-- A sequence from one state on. -/
theorem bind_at (ht : ∀ s t u, R s t → R t u → R s u) {a : Act σ ε α} {f : α → Act σ ε β} {s : σ}
    (ha : R s (a.exec s).2) (hf : ∀ x, Keeps R (f x)) : R s ((a >>= f).exec s).2 := by
  rw [exec_bind]
  rcases hx : a.exec s with ⟨x | x, t⟩
  · simpa [hx] using ha
  · rw [hx] at ha
    exact ht _ _ _ ha (hf x t)

theorem bind (ht : ∀ s t u, R s t → R t u → R s u) {a : Act σ ε α} {f : α → Act σ ε β}
    (ha : Keeps R a) (hf : ∀ x, Keeps R (f x)) : Keeps R (a >>= f) := fun s =>
  bind_at ht (ha s) hf

theorem map {a : Act σ ε α} (ha : Keeps R a) (f : α → β) : Keeps R (f <$> a) := by
  intro s
  rw [exec_map]
  exact ha s

theorem forM (hr : ∀ s, R s s) (ht : ∀ s t u, R s t → R t u → R s u) {f : α → Act σ ε PUnit}
    (hf : ∀ x, Keeps R (f x)) (l : List α) : Keeps R (l.forM f) := by
  induction l with
  | nil => exact hr
  | cons x l ih => exact bind ht (hf x) fun _ => ih

end Keeps

/-! ## Two operations -/

/-- Run in related states, `a` and `b` answer alike and leave related states. -/
def Agrees (R : σ → τ → Prop) (a : Act σ ε α) (b : Act τ ε α) : Prop :=
  ∀ s t, R s t → (a.exec s).1 = (b.exec t).1 ∧ R (a.exec s).2 (b.exec t).2

namespace Agrees

variable {R : σ → τ → Prop}

theorem pure (x : α) : Agrees R (Pure.pure x : Act σ ε α) (Pure.pure x) :=
  fun _ _ h => ⟨rfl, h⟩

theorem throw (e : ε) : Agrees R (MonadExcept.throw e : Act σ ε α) (MonadExcept.throw e) :=
  fun _ _ h => ⟨rfl, h⟩

theorem bind {a : Act σ ε α} {b : Act τ ε α} {f : α → Act σ ε β} {g : α → Act τ ε β}
    (hab : Agrees R a b) (hfg : ∀ x, Agrees R (f x) (g x)) : Agrees R (a >>= f) (b >>= g) := by
  intro s t h
  obtain ⟨he, hr⟩ := hab s t h
  rw [exec_bind, exec_bind]
  rcases hs : a.exec s with ⟨x | x, s'⟩ <;> rcases ht : b.exec t with ⟨y | y, t'⟩ <;>
    rw [hs, ht] at he hr <;> cases he
  · exact ⟨rfl, hr⟩
  · exact hfg x s' t' hr

/-- What follows a look at the state may look at what is related only. -/
theorem bind_get {f : σ → Act σ ε α} {g : τ → Act τ ε α}
    (h : ∀ s t, R s t → Agrees R (f s) (g t)) : Agrees R (get >>= f) (get >>= g) :=
  fun s t hst => h s t hst s t hst

theorem map {a : Act σ ε α} {b : Act τ ε α} (h : Agrees R a b) (f : α → β) :
    Agrees R (f <$> a) (f <$> b) := by
  intro s t hr
  rw [exec_map, exec_map, (h s t hr).1]
  exact ⟨rfl, (h s t hr).2⟩

theorem attempt {a : Act σ ε α} {b : Act τ ε α} (h : Agrees R a b) :
    Agrees R (attempt a : Act σ ε' _) (attempt b) := by
  intro s t hr
  rw [exec_attempt, exec_attempt, (h s t hr).1]
  exact ⟨rfl, (h s t hr).2⟩

theorem wrap {a : Act σ ε α} {b : Act τ ε α} (h : Agrees R a b) (f : ε → ε') :
    Agrees R (a.wrap f) (b.wrap f) := by
  intro s t hr
  rw [exec_wrap, exec_wrap, (h s t hr).1]
  exact ⟨rfl, (h s t hr).2⟩

theorem forM {f : α → Act σ ε PUnit} {g : α → Act τ ε PUnit} (h : ∀ x, Agrees R (f x) (g x))
    (l : List α) : Agrees R (l.forM f) (l.forM g) := by
  induction l with
  | nil => exact .pure _
  | cons x l ih => exact .bind (h x) fun _ => ih

end Agrees

/-! ## How an operation fails -/

/-- If `a` fails in the state `s`, it fails with an error of the kind `Q`. -/
def FailsWith (Q : ε → Prop) (a : Act σ ε α) (s : σ) : Prop :=
  ∀ e t, a.exec s = (.error e, t) → Q e

namespace FailsWith

variable {Q Q' : ε → Prop} {a : Act σ ε α} {s t : σ}

/-- An operation that answers does not fail. -/
theorem of_ok {x : α} (h : a.exec s = (.ok x, t)) : FailsWith Q a s := by
  intro e t' he
  rw [h] at he
  cases he

theorem of_error {e : ε} (h : a.exec s = (.error e, t)) (hq : Q e) : FailsWith Q a s := by
  intro e' t' he
  rw [h] at he
  cases he
  exact hq

theorem pure (x : α) : FailsWith Q (Pure.pure x : Act σ ε α) s := of_ok (exec_pure x s)

theorem throw {e : ε} (hq : Q e) : FailsWith Q (MonadExcept.throw e : Act σ ε α) s :=
  of_error (exec_throw e s) hq

theorem mono (h : FailsWith Q a s) (hq : ∀ e, Q e → Q' e) : FailsWith Q' a s :=
  fun e t he => hq e (h e t he)

theorem bind {f : α → Act σ ε β} (ha : FailsWith Q a s)
    (hf : ∀ x t, a.exec s = (.ok x, t) → FailsWith Q (f x) t) : FailsWith Q (a >>= f) s := by
  intro e u he
  rw [exec_bind] at he
  rcases hx : a.exec s with ⟨x | x, t⟩
  · rw [hx] at he
    cases he
    exact ha _ _ hx
  · rw [hx] at he
    exact hf x t hx e u he

theorem map (h : FailsWith Q a s) (f : α → β) : FailsWith Q (f <$> a) s := by
  rw [map_eq_pure_bind]
  exact h.bind fun _ _ _ => pure _

end FailsWith

/-! ## State and failures at once -/

/-- The state after `a` is related to the state before it, and if `a` fails, then with an error of
the kind `Q`. -/
def Respects (R : σ → σ → Prop) (Q : ε → Prop) (a : Act σ ε α) : Prop :=
  ∀ s, R s (a.exec s).2 ∧ ∀ e, (a.exec s).1 = .error e → Q e

namespace Respects

variable {R : σ → σ → Prop} {Q : ε → Prop} {Q' : ε' → Prop} {a : Act σ ε α} {f : α → Act σ ε β}

theorem keeps (h : Respects R Q a) : Keeps R a := fun s => (h s).1

/-- Where no failure is excluded, only the states matter. -/
theorem of_keeps (h : Keeps R a) (hq : ∀ e, Q e) : Respects R Q a :=
  fun s => ⟨h s, fun e _ => hq e⟩

/-- An operation that always answers. -/
theorem of_ok (h : ∀ s, ∃ x t, a.exec s = (.ok x, t) ∧ R s t) : Respects R Q a := by
  intro s
  obtain ⟨x, t, he, ht⟩ := h s
  rw [he]
  exact ⟨ht, fun e he => by cases he⟩

theorem pure (hr : ∀ s, R s s) (x : α) : Respects R Q (Pure.pure x : Act σ ε α) :=
  of_ok fun s => ⟨x, s, rfl, hr s⟩

theorem throw (hr : ∀ s, R s s) {e : ε} (hq : Q e) :
    Respects R Q (MonadExcept.throw e : Act σ ε α) := by
  refine fun s => ⟨hr s, fun e' he => ?_⟩
  cases he
  exact hq

theorem bind (ht : ∀ s t u, R s t → R t u → R s u) (ha : Respects R Q a)
    (hf : ∀ x, Respects R Q (f x)) : Respects R Q (a >>= f) := by
  intro s
  obtain ⟨hrel, hfail⟩ := ha s
  rw [exec_bind]
  rcases hx : a.exec s with ⟨e | x, t⟩ <;> rw [hx] at hrel hfail
  · refine ⟨hrel, fun e' he => ?_⟩
    cases he
    exact hfail e rfl
  · exact ⟨ht _ _ _ hrel (hf x t).1, (hf x t).2⟩

/-- What follows a look at the state may depend on the state. -/
theorem bind_get {f : σ → Act σ ε α} (hf : ∀ s, Respects R Q (f s)) :
    Respects R Q (get >>= f) := fun s => hf s s

/-- What follows a failure that is handled may depend on its kind. -/
theorem bind_attempt (ht : ∀ s t u, R s t → R t u → R s u) {g : Except ε α → Act σ ε' β}
    (ha : Respects R Q a) (hok : ∀ x, Respects R Q' (g (.ok x)))
    (herror : ∀ e, Q e → Respects R Q' (g (.error e))) :
    Respects R Q' (attempt a >>= g) := by
  intro s
  obtain ⟨hrel, hfail⟩ := ha s
  rw [exec_bind, exec_attempt]
  rcases hx : a.exec s with ⟨e | x, t⟩ <;> rw [hx] at hrel hfail
  · exact ⟨ht _ _ _ hrel (herror e (hfail e rfl) t).1, (herror e (hfail e rfl) t).2⟩
  · exact ⟨ht _ _ _ hrel (hok x t).1, (hok x t).2⟩

theorem wrap {g : ε → ε'} (h : Respects R Q a) (hg : ∀ e, Q e → Q' (g e)) :
    Respects R Q' (a.wrap g) := by
  intro s
  obtain ⟨hrel, hfail⟩ := h s
  refine ⟨hrel, fun e he => ?_⟩
  rw [exec_wrap] at he
  rcases hx : (a.exec s).1 with e' | x <;> rw [hx] at he <;> cases he
  exact hg e' (hfail e' hx)

/-- An operation on the second of two states. -/
theorem onSnd {R : σ × τ → σ × τ → Prop} {a : Act τ ε α}
    (h : ∀ x, Respects (fun t t' => R (x, t) (x, t')) Q a) : Respects R Q (Act.onSnd a) :=
  fun p => h p.1 p.2

end Respects

/-! ## What an operation costs -/

/-- From a state with `I`, the operation leads to one with `I` and adds at most `n` to the cost,
whether or not it fails. -/
def Costs (I : σ → Prop) (cost : σ → Nat) (n : Nat) (a : Act σ ε α) : Prop :=
  ∀ s, I s → I (a.exec s).2 ∧ cost (a.exec s).2 ≤ cost s + n

namespace Costs

variable {I : σ → Prop} {cost : σ → Nat} {m n : Nat} {a : Act σ ε α} {f : α → Act σ ε β}

/-- What leaves the state as it is costs nothing. -/
theorem of_same (h : ∀ s, (a.exec s).2 = s) (n : Nat) : Costs I cost n a := by
  intro s hs
  rw [h s]
  exact ⟨hs, Nat.le_add_right _ _⟩

theorem pure (x : α) (n : Nat) : Costs I cost n (Pure.pure x : Act σ ε α) :=
  of_same (fun _ => rfl) n

theorem throw (e : ε) (n : Nat) : Costs I cost n (MonadExcept.throw e : Act σ ε α) :=
  of_same (fun _ => rfl) n

theorem mono (h : Costs I cost m a) (hmn : m ≤ n) : Costs I cost n a := fun s hs =>
  ⟨(h s hs).1, Nat.le_trans (h s hs).2 (Nat.add_le_add_left hmn _)⟩

theorem bind (ha : Costs I cost m a) (hf : ∀ x, Costs I cost n (f x)) :
    Costs I cost (m + n) (a >>= f) := by
  intro s hs
  obtain ⟨hkept, hcost⟩ := ha s hs
  rw [exec_bind]
  rcases hx : a.exec s with ⟨e | x, t⟩ <;> rw [hx] at hkept hcost
  · exact ⟨hkept, Nat.le_trans hcost (Nat.add_le_add_left (Nat.le_add_right m n) _)⟩
  · obtain ⟨hkept', hcost'⟩ := hf x t hkept
    refine ⟨hkept', Nat.le_trans hcost' ?_⟩
    rw [← Nat.add_assoc]
    exact Nat.add_le_add_right hcost n

/-- What follows a look at the state may depend on what is known of it. -/
theorem bind_get {f : σ → Act σ ε α} (hf : ∀ s, I s → Costs I cost n (f s)) :
    Costs I cost n (get >>= f) := fun s hs => hf s hs s hs

theorem map (ha : Costs I cost n a) (g : α → β) : Costs I cost n (g <$> a) := by
  intro s hs
  rw [exec_map]
  exact ha s hs

theorem attempt (ha : Costs I cost n a) : Costs I cost n (attempt a : Act σ ε' _) := ha

theorem wrap (ha : Costs I cost n a) (g : ε → ε') : Costs I cost n (a.wrap g) := ha

theorem forM {g : α → Act σ ε PUnit} (hg : ∀ x, Costs I cost n (g x)) (l : List α) :
    Costs I cost (l.length * n) (l.forM g) := by
  induction l with
  | nil => exact of_same (fun _ => rfl) _
  | cons x l ih =>
    rw [List.length_cons, Nat.add_one_mul, Nat.add_comm]
    exact bind (hg x) fun _ => ih

end Costs

end Act

end NestedTxn
