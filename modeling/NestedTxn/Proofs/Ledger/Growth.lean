import NestedTxn.Services

/-!
# How records change

* `Txn.bare`: a record without its destination. `Txn.origin`: a record as it was created.
* `Txn.Becomes t u`: `u` may be found later where `t` is recorded now. Its origin is that of `t`,
  and a terminal record stays as it is.
* `Ledger.Grows l l'`: every record of `l` is still there in `l'`, or what it became.
* `Ledger.exec_fetch`, `exec_create`, `exec_update`: the calls of the ledger, each as one equation.
* `Services.exec_onLedger`, `exec_tick_some`, `exec_tick_none`: the calls of the services.
-/

namespace NestedTxn

namespace Txn

/-- The record without its destination. -/
def bare (t : Txn) : Txn := { t with destination := none }

/-- The record as it was created, but read-only. -/
def origin (t : Txn) : Txn :=
  { t with
    state := .active, commitTimestamp := none, globalCommitTimestamp := none,
    destination := none }

@[simp] theorem bare_id (t : Txn) : t.bare.id = t.id := rfl

@[simp] theorem bare_state (t : Txn) : t.bare.state = t.state := rfl

@[simp] theorem bare_parent (t : Txn) : t.bare.parent = t.parent := rfl

@[simp] theorem bare_grant (t : Txn) (table : Table) : (t.grant table).bare = t.bare := rfl

@[simp] theorem origin_bare (t : Txn) : t.bare.origin = t.origin := rfl

@[simp] theorem origin_grant (t : Txn) (table : Table) : (t.grant table).origin = t.origin := rfl

@[simp] theorem origin_finish (t : Txn) (o : Outcome) : (t.finish o).origin = t.origin := by
  cases o <;> rfl

theorem id_of_origin {t u : Txn} (h : t.origin = u.origin) : t.id = u.id := by
  change t.origin.id = u.origin.id
  rw [h]

theorem parent_of_origin {t u : Txn} (h : t.origin = u.origin) : t.parent = u.parent := by
  change t.origin.parent = u.origin.parent
  rw [h]

theorem depth_of_origin {t u : Txn} (h : t.origin = u.origin) : t.depth = u.depth := by
  change t.origin.depth = u.origin.depth
  rw [h]

theorem dependent_of_origin {t u : Txn} (h : t.origin = u.origin) : t.dependent = u.dependent := by
  change t.origin.dependent = u.origin.dependent
  rw [h]

theorem isolation_of_origin {t u : Txn} (h : t.origin = u.origin) : t.isolation = u.isolation := by
  change t.origin.isolation = u.origin.isolation
  rw [h]

theorem begin_of_origin {t u : Txn} (h : t.origin = u.origin) :
    t.beginTimestamp = u.beginTimestamp := by
  change t.origin.beginTimestamp = u.origin.beginTimestamp
  rw [h]

theorem origin_of_bare {t u : Txn} (h : t.bare = u.bare) : t.origin = u.origin := by
  rw [← origin_bare t, h, origin_bare]

theorem state_of_bare {t u : Txn} (h : t.bare = u.bare) : t.state = u.state := by
  change t.bare.state = u.bare.state
  rw [h]

/-- `u` may be recorded later where `t` is recorded now. -/
structure Becomes (t u : Txn) : Prop where
  /-- What a record starts with never changes. -/
  origin : u.origin = t.origin
  /-- A terminal record never changes at all. -/
  final : t.state ≠ .active → u = t

theorem Becomes.refl (t : Txn) : t.Becomes t := ⟨rfl, fun _ => rfl⟩

theorem Becomes.trans {t u v : Txn} (h : t.Becomes u) (h' : u.Becomes v) : t.Becomes v :=
  ⟨h'.origin.trans h.origin, fun ht => by rw [h'.final (h.final ht ▸ ht), h.final ht]⟩

theorem Becomes.finish {t : Txn} (h : t.state = .active) (o : Outcome) : t.Becomes (t.finish o) :=
  ⟨origin_finish t o, fun ht => absurd h ht⟩

theorem Becomes.grant {t : Txn} (h : t.state = .active) (table : Table) :
    t.Becomes (t.grant table) :=
  ⟨origin_grant t table, fun ht => absurd h ht⟩

theorem isTerminal_eq_false {t : Txn} : t.state.isTerminal = false ↔ t.state = .active := by
  cases h : t.state <;> simp [TxnState.isTerminal]

end Txn

namespace Ledger

/-- Every record of `l` is still there in `l'`, or what it became. -/
def Grows (l l' : Ledger) : Prop :=
  ∀ id t, l.find? id = some t → ∃ u, l'.find? id = some u ∧ t.Becomes u

theorem Grows.refl (l : Ledger) : l.Grows l := fun _ t h => ⟨t, h, .refl t⟩

theorem Grows.trans {l l' l'' : Ledger} (h : l.Grows l') (h' : l'.Grows l'') : l.Grows l'' := by
  intro id t ht
  obtain ⟨u, hu, htu⟩ := h id t ht
  obtain ⟨v, hv, huv⟩ := h' id u hu
  exact ⟨v, hv, htu.trans huv⟩

/-- What is found depends on the records only. -/
theorem find?_congr {l l' : Ledger} (h : l'.txns = l.txns) (id : TxnId) :
    l'.find? id = l.find? id := by
  rw [find?, find?, h]

theorem Grows.of_txns {l l' : Ledger} (h : l'.txns = l.txns) : l.Grows l' :=
  fun id t ht => ⟨t, by rw [find?_congr h, ht], .refl t⟩

theorem grows_insert {l : Ledger} {t : Txn} (h : l.find? t.id = none) : l.Grows (l.insert t) := by
  intro id u hu
  have hne : t.id ≠ id := fun e => by rw [← e, h] at hu; cases hu
  exact ⟨u, by rw [find?_insert, if_neg hne, hu], .refl u⟩

theorem grows_replace {l : Ledger} {t u : Txn} (h : l.find? t.id = some t) (hu : t.Becomes u) :
    l.Grows (l.replace u) := by
  have hid : u.id = t.id := Txn.id_of_origin hu.origin
  intro id v hv
  by_cases hi : t.id = id
  · subst hi
    rw [h] at hv
    cases hv
    exact ⟨u, by simp [find?_replace, hid, h], hu⟩
  · exact ⟨v, by rw [find?_replace, hid, if_neg hi, hv], .refl v⟩

/-! ## Calls of the ledger -/

theorem exec_fetch (id : TxnId) (l : Ledger) :
    (fetch id).exec l =
      if l.switch.on then (.ok (l.find? id), l) else (.error (.unavailable .ledger), l) := by
  cases h : l.switch.on <;> simp [fetch, demand, Act.exec_bind, Act.exec_map, Except.map, h]

theorem exec_create (t : Txn) (l : Ledger) :
    (create t).exec l =
      if l.switch.on then
        if (l.find? t.id).isSome then (.error (.alreadyExists t.id), l) else (.ok (), l.insert t)
      else (.error (.unavailable .ledger), l) := by
  cases h : l.switch.on <;> cases hf : l.find? t.id <;>
    simp [create, demand, Act.exec_bind, h, hf]

theorem exec_update (id : TxnId) (change : Txn → Txn) (l : Ledger) :
    (update id change).exec l =
      if l.switch.on then
        match l.find? id with
        | none => (.error (.notFound id), l)
        | some t =>
          if t.state.isTerminal then (.error (.alreadyTerminal id t.state), l)
          else (.ok (change t), l.replace (change t))
      else (.error (.unavailable .ledger), l) := by
  cases h : l.switch.on with
  | false => simp [update, demand, Act.exec_bind, h]
  | true =>
    cases hf : l.find? id with
    | none => simp [update, demand, Act.exec_bind, h, hf]
    | some t => cases ht : t.state.isTerminal <;> 
      simp [update, demand, Act.exec_bind, Act.exec_map, Except.map, h, hf, ht]

end Ledger

/-! ## Calls of the services -/

namespace Switch

/-- The switch is on at every call to come. -/
def Up (s : Switch) : Prop := ∀ n, s.calls ≤ n → s.plan n = true

theorem Up.advance {s : Switch} (h : s.Up) : s.advance.Up :=
  fun n hn => h n (Nat.le_of_succ_le hn)

theorem Up.on_advance {s : Switch} (h : s.Up) : s.advance.on = true := h _ (Nat.le_refl _)

end Switch

namespace Services

variable {ε α : Type}

/-- The ledger at its next call. -/
def nextLedger (s : Services) : Ledger := { s.ledger with switch := s.ledger.switch.advance }

/-- The services after a call of the ledger that left it as `l`. -/
def withLedger (s : Services) (l : Ledger) : Services := { s with ledger := l }

@[simp] theorem nextLedger_txns (s : Services) : s.nextLedger.txns = s.ledger.txns := rfl

@[simp] theorem nextLedger_find? (s : Services) (id : TxnId) :
    s.nextLedger.find? id = s.ledger.find? id := rfl

@[simp] theorem withLedger_ledger (s : Services) (l : Ledger) : (s.withLedger l).ledger = l := rfl

theorem exec_onLedger (call : Act Ledger TxnError α) (s : Services) :
    (onLedger call).exec s =
      ((call.exec s.nextLedger).1, s.withLedger (call.exec s.nextLedger).2) := by
  rw [onLedger, Act.exec_zoom]
  rcases h : call.exec { s.ledger with switch := s.ledger.switch.advance } with ⟨r, l⟩
  cases r <;> simp [nextLedger, withLedger, h]

/-- The services after a reading of the clock was taken. -/
def ticked (s : Services) : Services :=
  { s with clock := { s.clock with taken := s.clock.taken + 1 } }

theorem exec_tick_some {s : Services} {ts : Timestamp}
    (h : s.clock.reading s.clock.taken = some ts) : tick.exec s = (.ok ts, s.ticked) := by
  simp [tick, Act.exec_bind, Act.exec_map, Except.map, Clock.next, h, ticked]

theorem exec_tick_none {s : Services} (h : s.clock.reading s.clock.taken = none) :
    tick.exec s = (.error (.unavailable .clock), s.ticked) := by
  simp [tick, Act.exec_bind, Clock.next, h, ticked]

/-- The services after something was counted. -/
def counted (s : Services) (c : Counter) : Services := { s with counters := s.counters.bump c }

/-- The services after an event was reported. -/
def reported (s : Services) (e : Event) : Services := { s with log := e :: s.log }

@[simp] theorem exec_count (c : Counter) (s : Services) :
    (count c : Act Services ε Unit).exec s = (.ok (), s.counted c) := rfl

@[simp] theorem exec_report (e : Event) (s : Services) :
    (report e : Act Services ε Unit).exec s = (.ok (), s.reported e) := rfl

end Services

end NestedTxn
