import NestedTxn.Proofs.Lifecycle.Success

/-!
# The counters say what is recorded

* `Counter.kind?`: the kind of transactions that a counter is about.
* `Services.Booked`: each id is recorded once, and each of these counters is the number of recorded
  transactions of its kind. `Booked.insert`, `Booked.replace`: what has to be counted when a record
  is new, or replaced by another one.
* Every operation of the lifecycle that a connection uses keeps that, whatever the clock and the
  ledger answer (`beginRoot_booked` and so on). A grant is counted by the transaction as it is given,
  so that has to be the record (`grant_booked`).
-/

namespace NestedTxn

/-- The kind of transactions that a counter tells the number of. -/
def Counter.kind? : Counter → Option (Txn → Bool)
  | .begun => some fun _ => true
  | .committed => some (·.state == .committed)
  | .rolledBack => some (·.state == .rolledBack)
  | .elevations => some (·.allowsWrites)
  | .enqueued | .dropped | .applied | .unresolvable => none

namespace Ledger

variable {l : Ledger} {t u : Txn}

/-- A record that is replaced counts no longer, and its replacement counts. -/
theorem countP_replace (hnd : (l.txns.map (·.id)).Nodup) (ht : l.find? t.id = some t)
    (hu : u.id = t.id) (kind : Txn → Bool) :
    (l.replace u).txns.countP kind + (if kind t then 1 else 0) =
      l.txns.countP kind + if kind u then 1 else 0 := by
  rw [find?] at ht
  simp only [replace]
  generalize l.txns = txns at hnd ht
  induction txns with
  | nil => cases ht
  | cons v txns ih =>
    obtain ⟨hnot, hnd⟩ := List.nodup_cons.1 hnd
    rw [List.map_cons, List.countP_cons, List.countP_cons]
    by_cases hv : v.id = t.id
    · rw [List.find?_cons_of_pos (by simp [hv])] at ht
      cases ht
      -- no record that follows has the same id
      have hrest : ∀ w ∈ txns, (if w.id = u.id then u else w) = w := fun w hw =>
        if_neg fun hid => hnot (List.mem_map.2 ⟨w, hw, hid.trans hu⟩)
      rw [List.map_congr_left hrest, List.map_id', if_pos hu.symm]
      omega
    · rw [List.find?_cons_of_neg (by simp [hv])] at ht
      have hne : ¬v.id = u.id := hu ▸ hv
      have hrest := ih hnd ht
      rw [if_neg hne]
      omega

theorem nodup_insert (hnd : (l.txns.map (·.id)).Nodup) (hf : l.find? t.id = none) :
    ((l.insert t).txns.map (·.id)).Nodup := by
  refine List.nodup_cons.2 ⟨fun hm => ?_, hnd⟩
  obtain ⟨v, hv, hid⟩ := List.mem_map.1 hm
  exact List.find?_eq_none.1 hf v hv (decide_eq_true hid)

theorem ids_replace (l : Ledger) (u : Txn) :
    (l.replace u).txns.map (·.id) = l.txns.map (·.id) := by
  rw [replace, List.map_map]
  refine List.map_congr_left fun v _ => ?_
  dsimp only [Function.comp_apply]
  split
  · next h => exact h.symm
  · rfl

end Ledger

namespace Services

/-- Each id is recorded once, and the counters tell how many transactions of their kinds there
are. -/
structure Booked (s : Services) : Prop where
  nodup : (s.ledger.txns.map (·.id)).Nodup
  counted : ∀ c kind, c.kind? = some kind → s.counters.get c = s.ledger.txns.countP kind

/-- From `s` to `s'` no record changed, and none was counted. -/
structure SameBooks (s s' : Services) : Prop where
  txns : s'.ledger.txns = s.ledger.txns
  counters : ∀ c kind, c.kind? = some kind → s'.counters.get c = s.counters.get c

variable {s s' s'' : Services} {t u : Txn}

theorem SameBooks.refl (s : Services) : s.SameBooks s := ⟨rfl, fun _ _ _ => rfl⟩

theorem SameBooks.trans (s s' s'' : Services) (h : s.SameBooks s') (h' : s'.SameBooks s'') :
    s.SameBooks s'' :=
  ⟨h'.txns.trans h.txns, fun c kind hc => (h'.counters c kind hc).trans (h.counters c kind hc)⟩

theorem Booked.same (h : s.Booked) (hs : s.SameBooks s') : s'.Booked where
  nodup := hs.txns ▸ h.nodup
  counted c kind hc := by rw [hs.counters c kind hc, hs.txns, h.counted c kind hc]

/-- Nothing is recorded, and nothing was counted. -/
theorem booked_of_nil (ht : s.ledger.txns = []) (hc : s.counters = {}) : s.Booked where
  nodup := by simp [ht]
  counted c kind hk := by
    rw [ht, hc]
    cases c <;> cases hk <;> rfl

/-- A new record is counted as begun, and is of no other kind. -/
theorem Booked.insert (h : s.Booked) (hf : s.ledger.find? t.id = none) (ha : t.state = .active)
    (hd : t.destination = none) (ht : s'.ledger.txns = (s.ledger.insert t).txns)
    (hc : s'.counters = s.counters.bump .begun) : s'.Booked where
  nodup := by
    rw [ht]
    exact Ledger.nodup_insert h.nodup hf
  counted c kind hk := by
    have hkind : kind t = decide (.begun = c) := by
      cases c <;> cases hk <;> simp [ha, hd, Txn.allowsWrites]
    rw [ht, hc, Counters.get_bump, Ledger.insert, List.countP_cons, h.counted c kind hk, hkind]
    by_cases hbegun : .begun = c <;> simp [hbegun]

/-- A record is replaced, and its kinds are counted. -/
theorem Booked.replace (h : s.Booked) (hf : s.ledger.find? t.id = some t) (hu : u.id = t.id)
    (ht : s'.ledger.txns = (s.ledger.replace u).txns)
    (hc : ∀ c kind, c.kind? = some kind →
      s'.counters.get c + (if kind t then 1 else 0) =
        s.counters.get c + if kind u then 1 else 0) : s'.Booked where
  nodup := by
    rw [ht, Ledger.ids_replace]
    exact h.nodup
  counted c kind hk := by
    have hkinds := Ledger.countP_replace h.nodup hf hu kind
    have hcounted := hc c kind hk
    have hold := h.counted c kind hk
    rw [ht]
    omega

/-- The counter of an outcome. -/
def counterOf : Outcome → Counter
  | .committed _ _ => .committed
  | .rolledBack => .rolledBack

/-- An active record is finished, and its outcome is counted. -/
theorem Booked.finish (h : s.Booked) (hu : s.ledger.find? u.id = some u) (ha : u.state = .active)
    (o : Outcome) (ht : s'.ledger.txns = (s.ledger.replace (u.finish o)).txns)
    (hc : s'.counters = s.counters.bump (counterOf o)) : s'.Booked := by
  refine h.replace hu (Txn.finish_id u o) ht fun c kind hk => ?_
  have hkind : kind (u.finish o) = true ↔ kind u = true ∨ counterOf o = c := by
    cases o <;> cases c <;> cases hk <;> simp [counterOf, Txn.finish, Txn.allowsWrites, ha]
  have hnew : counterOf o = c → kind u = false := by
    rintro rfl
    cases o <;> cases hk <;> simp [ha]
  simp only [hc, Counters.get_bump, hkind]
  by_cases hcounted : counterOf o = c
  · simp [hcounted, hnew hcounted]
  · simp [hcounted]

/-- A record is granted one more table, which is counted if it is the first one. -/
theorem Booked.grant (h : s.Booked) (hu : s.ledger.find? u.id = some u) (table : Table)
    (ht : s'.ledger.txns = (s.ledger.replace (u.grant table)).txns)
    (hc : s'.counters = if u.allowsWrites then s.counters else s.counters.bump .elevations) :
    s'.Booked := by
  refine h.replace hu (Txn.grant_id u table) ht fun c kind hk => ?_
  have hkind : kind (u.grant table) = true ↔ kind u = true ∨ .elevations = c := by
    cases c <;> cases hk <;> simp [Txn.grant, Txn.allowsWrites]
  simp only [hc, hkind]
  by_cases hcounted : .elevations = c
  · obtain rfl := hcounted
    cases hk
    cases hw : u.allowsWrites <;> simp [Counters.get_bump, hw]
  · cases u.allowsWrites <;> simp [Counters.get_bump, hcounted]

/-- What is booked stays so. -/
def StaysBooked (s s' : Services) : Prop := s.Booked → s'.Booked

theorem StaysBooked.refl (s : Services) : s.StaysBooked s := id

theorem StaysBooked.trans (s s' s'' : Services) (h : s.StaysBooked s') (h' : s'.StaysBooked s'') :
    s.StaysBooked s'' :=
  fun hb => h' (h hb)

theorem SameBooks.staysBooked (h : s.SameBooks s') : s.StaysBooked s' := fun hb => hb.same h

theorem sameBooks_ticked (s : Services) : s.SameBooks s.ticked := ⟨rfl, fun _ _ _ => rfl⟩

theorem sameBooks_called (s : Services) : s.SameBooks (s.withLedger s.nextLedger) :=
  ⟨rfl, fun _ _ _ => rfl⟩

theorem sameBooks_reported (s : Services) (e : Event) : s.SameBooks (s.reported e) :=
  ⟨rfl, fun _ _ _ => rfl⟩

end Services

namespace Lifecycle

open Services

theorem recorded_sameBooks (id : TxnId) : Act.Keeps SameBooks (recorded id) := by
  intro s
  rcases exec_fetch_cases id s with he | he
  · simpa [recorded, Act.exec_bind, he] using sameBooks_called s
  · cases hf : s.ledger.find? id <;>
      simpa [recorded, Act.exec_bind, he, hf] using sameBooks_called s

/-- A new transaction is recorded and counted, or neither. -/
theorem create_booked (make : Timestamp → Txn) (begun : Txn → Event)
    (ha : ∀ ts, (make ts).state = .active) (hd : ∀ ts, (make ts).destination = none) :
    Act.Keeps StaysBooked (do
      let ts ← tick
      onLedger (Ledger.create (make ts))
      count .begun
      report (begun (make ts))
      return make ts : Act Services TxnError Txn) := by
  intro s hb
  have hticked := hb.same (sameBooks_ticked s)
  cases hr : s.clock.reading s.clock.taken with
  | none => simpa [Act.exec_bind, exec_tick_none hr] using hticked
  | some ts =>
    rcases exec_create_cases (make ts) s.ticked with ⟨e, he⟩ | ⟨hf, he⟩
    · simpa [Act.exec_bind, exec_tick_some hr, he] using hticked.same (sameBooks_called s.ticked)
    · simp only [Act.exec_bind, exec_tick_some hr, he]
      exact hticked.insert hf (ha ts) (hd ts) rfl rfl

theorem beginRoot_booked (isolation : Isolation) : Act.Keeps StaysBooked (beginRoot isolation) :=
  create_booked (fun ts => .root ts ts isolation) .begunRoot (fun _ => rfl) fun _ => rfl

/-- A child that covers no table. One that covers the table of its parent would not be counted as
elevated. -/
theorem beginChild_booked (config : Config) (parent : Txn) (isolation : Option Isolation)
    (additive : Bool) :
    Act.Keeps StaysBooked (beginChild config parent isolation additive none) := by
  refine .bind .trans (fun s => ?_) fun _ => ?_
  · rw [exec_demandActive]
    split <;> exact .refl s
  · split
    · exact .refl
    · exact create_booked
        (fun ts => .child ts ts parent (isolation.getD parent.isolation) additive none) .begunChild
        (fun _ => rfl) fun _ => rfl

/-- A record is committed and counted, or neither. -/
theorem commit_booked (config : Config) (t : Txn) : Act.Keeps StaysBooked (commit config t) := by
  have hglobal : ∀ ts, Act.Keeps StaysBooked (commitGlobal config t ts) := fun ts s =>
    (commitGlobal_keeps .refl .trans recorded_sameBooks config t ts s).staysBooked
  rw [commit_eq]
  refine .bind .trans (fun s => ?_) fun _ => .bind .trans (fun s => ?_) fun ts =>
    .bind .trans (hglobal ts) fun globalTs s hb => ?_
  · rw [exec_demandActive]
    split <;> exact .refl s
  · cases hr : s.clock.reading s.clock.taken with
    | none => simpa [exec_tick_none hr] using (sameBooks_ticked s).staysBooked
    | some ts => simpa [exec_tick_some hr] using (sameBooks_ticked s).staysBooked
  · rcases exec_update_cases t.id (·.finish (.committed ts globalTs)) s with
      ⟨e, he, _⟩ | ⟨u, hu, ha, he⟩
    · simpa [Ledger.finish, Act.exec_bind, Act.exec_discard, Except.map, he] using
        hb.same (sameBooks_called s)
    · rw [← Ledger.id_of_find? hu] at hu
      simp only [Ledger.finish, Act.exec_bind, Act.exec_discard, Except.map, he]
      exact hb.finish hu ha (.committed ts globalTs) rfl rfl

/-- A record is rolled back and counted, or neither. -/
theorem rollback_booked (t : Txn) : Act.Keeps StaysBooked (rollback t) := by
  intro s hb
  cases ht : t.state with
  | rolledBack | committed => simpa [rollback, ht] using hb
  | active =>
    rcases exec_update_cases t.id (·.finish .rolledBack) s with ⟨e, he, _⟩ | ⟨u, hu, ha, he⟩
    · simp only [rollback, ht, Ledger.finish, Act.exec_bind, Act.exec_attempt, he]
      split
      · next h => cases h
      · exact hb.same (sameBooks_called s)
      · exact hb.same (sameBooks_called s)
    · rw [← Ledger.id_of_find? hu] at hu
      simp only [rollback, ht, Ledger.finish, Act.exec_bind, Act.exec_attempt, he]
      exact hb.finish hu ha .rolledBack rfl rfl

/-- A grant counts by the transaction that it is given. If that is the record, the table is granted
and counted, or neither. -/
theorem grant_booked {t : Txn} {s : Services} (ht : s.ledger.find? t.id = some t) (table : Table)
    (hb : s.Booked) : ((grant t table).exec s).2.Booked := by
  rcases exec_update_cases t.id (·.grant table) s with ⟨e, he, _⟩ | ⟨u, hu, ha, he⟩
  · simpa [grant, Ledger.grant, Act.exec_bind, he] using hb.same (sameBooks_called s)
  · rw [ht] at hu
    cases hu
    simp only [grant, Ledger.grant, Act.exec_bind, he]
    cases hw : t.allowsWrites with
    | true => exact hb.grant ht table rfl (by rw [hw]; rfl)
    | false => exact hb.grant ht table rfl (by rw [hw]; rfl)

/-- The elevation of a root, or of a transaction whose parent was just elevated, is booked, and no
other record changes. The answer is the record. -/
theorem elevateUnder_booked (config : Config) {t : Txn} {table : Table} {parent : Option Txn}
    (hp : t.parent = none ∨ parent.any fun p => t.parent = some p.id && p.writableFor table)
    {s s' : Services} {x : Except TxnError Txn} (ht : s.ledger.find? t.id = some t)
    (hb : s.Booked) (h : (elevateUnder config t table parent).exec s = (x, s')) :
    s'.Booked ∧ (∀ id, id ≠ t.id → s'.ledger.find? id = s.ledger.find? id) ∧
      s'.ledger.find? t.id = some (x.toOption.getD t) := by
  rw [elevateUnder_eq config hp] at h
  split at h
  · cases h
    exact ⟨hb, fun _ _ => rfl, ht⟩
  cases hterm : t.state.isTerminal with
  | true =>
    rw [Act.exec_bind, exec_demandActive, if_pos hterm] at h
    cases h
    exact ⟨hb, fun _ _ => rfl, ht⟩
  | false =>
    rw [Act.exec_bind_ok (demandActive_ok (Txn.isTerminal_eq_false.1 hterm) s)] at h
    have hbooked := grant_booked ht table hb
    rcases grant_cases t table s with ⟨e, s₁, he, hs⟩ | ⟨u, s₁, hu, _, he, hs, _⟩
    · rw [he] at h hbooked
      cases h
      exact ⟨hbooked, fun id _ => hs.find? id, (hs.find? t.id).trans ht⟩
    · rw [he] at h hbooked
      cases h
      rw [ht] at hu
      cases hu
      refine ⟨hbooked, fun id hid => ?_, ?_⟩
      · rw [hs.find?, Ledger.find?_replace, Txn.grant_id, if_neg hid.symm]
      · rw [hs.find?, Ledger.find?_replace, Txn.grant_id, if_pos rfl, ht]
        rfl

end Lifecycle

end NestedTxn
