import Mathlib.Data.List.Find
import NestedTxn.Proofs.Connection.Remaining
import NestedTxn.Proofs.Session.Effects
import NestedTxn.Proofs.Session.Seen
import NestedTxn.Proofs.Session.Transparency

/-!
# Sessions and their own writes

* `Database.State.Since db w₁ i key w`: the database went on from `w₁` to `w`, and session `i` wrote
  no version of `key` and undid nothing on the way. Then its stack still holds the entries of `w₁`,
  and all later versions of `key` are those of transactions apart from its stack. What such a
  transaction commits is dated after `w₁` (`Since.run`).
* `Ledger.published`: whether the writer of a version is effectively committed at or before some
  time. `State.storedSince`: the versions of a key that were stored since.
* `Database.State.get_put`: after a put, a get of the same session answers the newest version that
  was published since at or before the begin of its leaf, else what was put. Only after another
  savepoint there may be one: until then a get answers what was put.
-/

namespace NestedTxn

/-- Whether the writer of the version is effectively committed, at or before `ts`. -/
def Ledger.published (l : Ledger) (max : Nat) (ts : Timestamp) (v : RowVersion) : Bool :=
  v.writer.any fun writer =>
    match effectiveState (l.lineage (max + 1) writer) with
    | .ok (.committed commitTs) => commitTs ≤ ts
    | _ => false

theorem Ledger.published_eq {l : Ledger} {max : Nat} {ts : Timestamp} {v : RowVersion}
    {writer : TxnId} {k : List Txn} (hs : l.Sound max) (hw : v.writer = some writer)
    (hk : l.Chain writer k) :
    l.published max ts v = true ↔ ∃ t, effectiveState k = .ok (.committed t) ∧ t ≤ ts := by
  obtain ⟨_, _, rfl, _⟩ := hk.eq_cons
  rw [published, hw, Option.any_some, hk.lineage_eq (Nat.succ_le_succ (hk.length_le hs))]
  split
  · next t he => simp [he]
  · next hno =>
    simp only [Bool.false_eq_true, false_iff]
    rintro ⟨t, he, _⟩
    exact hno t he

/-- A leaf at snapshot isolation sees of others what was published before its begin. -/
theorem Connection.Seated.sees_other {max : Nat} {c : Connection} {l : Ledger} {e : Savepoint}
    {rest : List Savepoint} {v : RowVersion} {writer : TxnId} {k : List Txn} (hc : c.Seated l)
    (hs : l.Sound max) (hst : c.stack = e :: rest) (hw : v.writer = some writer)
    (hk : l.Chain writer k) (hno : ∀ t ∈ k, t.id ∉ c.ids) (hi : e.txn.isolation = .snapshot) :
    l.sees max e.txn v = l.published max e.txn.beginTimestamp v := by
  rw [Bool.eq_iff_iff, Ledger.published_eq hs hw hk]
  obtain ⟨state, he⟩ := hk.effectiveState_ok hs
  cases state with
  | active =>
    rw [hc.sees_stranger hs hst hw hk hno he hi]
    simp [he]
  | rolledBack =>
    obtain ⟨t, ht, hback⟩ := (hk.effectiveState_eq_rolledBack hs).1 he
    rw [hc.sees_undone hs hst hw hk ht hback]
    simp [he]
  | committed ts =>
    rw [hc.sees_published hs hst hw hk he hi]
    simp [he]

/-- A leaf sees what was written on its stack. -/
theorem Connection.Seated.sees_mine {max : Nat} {c : Connection} {l : Ledger} {e : Savepoint}
    {rest : List Savepoint} {v : RowVersion} {writer : TxnId} (hc : c.Seated l)
    (hs : l.Sound max) (hst : c.stack = e :: rest) (hw : v.writer = some writer)
    (hid : writer ∈ c.ids) : l.sees max e.txn v = true := by
  obtain ⟨d, hd, rfl⟩ := List.mem_map.1 hid
  obtain ⟨pre, below, hsplit⟩ := List.append_of_mem hd
  -- the chain of the writer is the stack from its entry down
  have hstack := hc.stacked
  rw [hsplit] at hstack
  obtain ⟨t, k, hk, hb, hkb⟩ := hstack.of_append.chain
  have hids : Ledger.ids (t :: k) = (d :: below).map (·.txn.id) :=
    Ledger.Stacked.ids_of_bare (by rw [List.map_cons, hb, hkb, List.map_cons])
  have hin : ∀ u ∈ t :: k, u.id ∈ c.ids := by
    intro u hu
    have hmem : u.id ∈ Ledger.ids (t :: k) := Ledger.mem_ids.2 ⟨u, hu, rfl⟩
    rw [hids] at hmem
    rw [ids, hsplit, List.map_append]
    exact List.mem_append_right _ hmem
  exact hc.sees_own hs hst hw hk ⟨t, by simp, hin t (by simp)⟩ fun u hu => .inl (hin u hu)

namespace Session

variable {config : Config}

/-- A call after which the writes of the session to `key` are as before. -/
def Call.Spares (key : Key) (c : Call) : Prop :=
  match c with
  | begin | get _ | scan _ _ | savepoint _ => True
  | put _ other _ | delete _ other => other ≠ key
  | release _ | rollbackTo _ | commit | abort | close => False

theorem Call.Spares.target {c : Call} {key : Key} (h : c.Spares key) : c.target? ≠ some key := by
  cases c with
  | put _ _ _ | delete _ _ => exact fun he => h (Option.some.inj he)
  | begin | get _ | scan _ _ | savepoint _ | release _ | rollbackTo _ | commit | abort | close =>
    exact nofun

/-- A call that undoes nothing leaves the stack, unless it sets a savepoint. -/
theorem Call.Spares.holds {c : Call} {key : Key} (h : c.Spares key)
    (hno : ∀ name, c ≠ .savepoint name) :
    Act.Keeps (Connection.Remains (· = ·) config.maxAncestorDepth.toNat) (c.connects config) := by
  cases c with
  | begin | get _ | scan _ _ => exact (Connection.activeTxn_remains config).map _
  | put table _ _ | delete table _ => exact (Connection.elevate_remains config table).map _
  | savepoint name => exact absurd rfl (hno name)
  | release _ | rollbackTo _ | commit | abort | close => cases h

theorem Call.Spares.raises {c : Call} {key : Key} (h : c.Spares key) :
    Act.Keeps (Connection.Remains (· <:+ ·) config.maxAncestorDepth.toNat)
      (c.connects config) := by
  cases c with
  | savepoint name => exact (Connection.setSavepoint_remains config name).map _
  | begin | get _ | scan _ _ | put _ _ _ | delete _ _ => exact fun p => (h.holds nofun p).raises
  | release _ | rollbackTo _ | commit | abort | close => cases h

end Session

namespace Database

/-- An event after which the writes of session `i` to `key` are as before, and the rows in order. -/
def Event.Spares (i : Nat) (key : Key) : Event → Prop
  | .call j c => c.Upright ∧ (j = i → c.Spares key)
  | .drain | .shutdown => True

namespace State

/-- The versions of `key` that were stored from `w₁` to `w`, newest first. -/
def storedSince (w₁ w : State) (key : Key) : List RowVersion :=
  let versions := w.services.rows.versionsOf key
  versions.take (versions.length - (w₁.services.rows.versionsOf key).length)

/-- A version whose writer is apart from the stack of session `i`, and was not committed at `w₁`. -/
def Foreign (w₁ : State) (i : Nat) (w : State) (v : RowVersion) : Prop :=
  ∃ writer k, v.writer = some writer ∧ w.services.ledger.Chain writer k ∧
    (∀ t ∈ k, t.id ∉ (w.sessions i).ids) ∧
    ∀ ts, effectiveState k = .ok (.committed ts) → w₁.services.Drawn w.services ts

/-- What holds of a database that went on from `w₁` to `w`, while session `i` wrote no version of
`key` and undid nothing. -/
structure Since (db : Database) (w₁ : State) (i : Nat) (key : Key) (w : State) : Prop where
  orderly : w.Orderly db.config.maxAncestorDepth.toNat
  uniform : w.services.ledger.Uniform db.config.defaultIsolation
  poisoned : w.services.rows.poisoned = false
  dated : w₁.services.Dated w.services
  ids : (w₁.sessions i).ids <:+ (w.sessions i).ids
  versions : ∃ new : List RowVersion,
    (w.services.rows.versionsOf key).map RowVersion.unmarked =
      new ++ (w₁.services.rows.versionsOf key).map RowVersion.unmarked ∧
    ∀ v ∈ new, Foreign w₁ i w v

variable {db : Database} {w₁ w w' : State} {i : Nat} {key : Key}

/-- A foreign version stays foreign, because what comes onto the stack is new, and what is committed
is dated now. -/
theorem Foreign.later {max : Nat} {v : RowVersion} (h : Foreign w₁ i w v)
    (h₁ : w₁.services.Dated w.services) (hd : w.services.Dated w'.services)
    (hs : w.services.ledger.Sound max) (hs' : w'.services.ledger.Sound max)
    (hids : ∀ id ∈ (w'.sessions i).ids,
      id ∈ (w.sessions i).ids ∨ w.services.ledger.find? id = none) : Foreign w₁ i w' v := by
  obtain ⟨writer, k, hw, hk, hno, hcom⟩ := h
  obtain ⟨k', hk', _⟩ := hk.grows hd.grows
  refine ⟨writer, k', hw, hk', fun t ht hid => ?_, fun ts he => ?_⟩
  · obtain ⟨u, hu, hut⟩ := hk.mem_before hk' hd.grows ht
    rw [Txn.id_of_origin hut.origin] at hid
    rcases hids u.id hid with hin | hnew
    · exact hno u hu hin
    · rw [hk.find?_of_mem hu] at hnew
      cases hnew
  · rcases hd.committed_before hs hs' hk hk' he with hc | hnow
    · exact (hcom ts hc).widen_right hd.toElapsed
    · exact hnow.widen_left h₁.toElapsed

/-- What another session has just written is foreign. -/
theorem foreign_of_leaf {max : Nat} {j : Nat} {v : RowVersion} {e : Savepoint}
    {rest : List Savepoint} (h : w.Orderly max) (hj : j ≠ i)
    (hst : (w.sessions j).stack = e :: rest) (hw : v.writer = some e.txn.id) :
    Foreign w₁ i w v := by
  obtain ⟨t, k, hk, hid, _, hb⟩ := Session.leaf_chain (h.seated j) hst
  rw [← hid] at hk
  have hstack := (h.seated j).stacked
  rw [hst] at hstack
  refine ⟨e.txn.id, t :: k, hw, hk, fun u hu hin => ?_, fun ts he => ?_⟩
  · refine h.apart i j hj.symm u.id hin ?_
    rw [Connection.ids, hst, ← Ledger.Stacked.ids_of_bare hb]
    exact Ledger.mem_ids.2 ⟨u, hu, rfl⟩
  · rw [hstack.effectiveState h.sane.sound hk hb] at he
    cases he

/-- The services before and after a call. -/
theorem call_dated (hs : w.services.Sane db.config.maxAncestorDepth.toNat) {j : Nat}
    (hc : (w.sessions j).Seated w.services.ledger) (c : Session.Call) :
    w.services.Dated (w.call db j c).2.services := by
  have heff := c.run_effect db (p := w.view j) hs hc
  have helapsed : Services.Elapsed ((c.connects db.config).exec (w.view j)).2.2
      (w.call db j c).2.services :=
    ⟨congrArg Clock.reading heff.clock, (congrArg Clock.taken heff.clock).ge⟩
  exact (c.connects_changes db.config (w.view j)).dated.trans _ _ _ (helapsed.dated heff.txns)

/-- The stack of session `i` after a call: what is on it was there, or is new. -/
theorem mem_ids_call (h : w.Orderly db.config.maxAncestorDepth.toNat) {j : Nat}
    (c : Session.Call) {id : TxnId} (hid : id ∈ ((w.call db j c).2.sessions i).ids) :
    id ∈ (w.sessions i).ids ∨ w.services.ledger.find? id = none := by
  by_cases hj : i = j
  · subst hj
    have heff := c.run_effect db (p := w.view i) h.sane (h.seated i)
    have hmoved := (c.connects_changes db.config (w.view i)).moves h.sane.sound (h.seated i)
    refine hmoved.fresh id ?_
    change id ∈ ((w.put i _).sessions i).ids at hid
    rwa [sessions_put, heff.connection] at hid
  · refine .inl ?_
    change id ∈ ((w.put j _).sessions i).ids at hid
    rwa [sessions_put_of_ne hj] at hid

/-- What a call stores under `key`. -/
theorem versionsOf_call (h : w.Orderly db.config.maxAncestorDepth.toNat) {j : Nat}
    (c : Session.Call) (key : Key) :
    ∃ new : List RowVersion,
      ((w.call db j c).2.services.rows.versionsOf key).map RowVersion.unmarked =
        new ++ (w.services.rows.versionsOf key).map RowVersion.unmarked ∧
      ∀ v ∈ new, c.target? = some key ∧ ∃ e rest,
        ((w.call db j c).2.sessions j).stack = e :: rest ∧ v.writer = some e.txn.id := by
  have heff := c.run_effect db (p := w.view j) h.sane (h.seated j)
  have hrows := (c.connects_changes db.config (w.view j)).spares.rows
  obtain ⟨new, hnew, hwriter⟩ := heff.versions
  refine ⟨new.filter (·.key = key), ?_, fun v hv => ?_⟩
  · rw [← RowStore.versionsOf_unmarked, ← RowStore.versionsOf_unmarked]
    simp only [RowStore.versionsOf, RowStore.unmarked]
    change List.filter _ (List.map _ ((c.run db).exec (w.view j)).2.2.rows.versions) = _
    rw [hnew, List.filter_append, hrows]
    rfl
  · obtain ⟨hv, hkey⟩ := List.mem_filter.1 hv
    obtain ⟨htarget, e, rest, hst, hw⟩ := hwriter v hv
    refine ⟨by rw [← htarget, of_decide_eq_true hkey], e, rest, ?_, hw⟩
    change ((w.put j _).sessions j).stack = e :: rest
    rw [sessions_put, heff.connection, hst]

/-- A session that had begun is active. -/
theorem Since.active (h : Since db w₁ i key w) (hne : (w₁.sessions i).ids ≠ []) :
    (w.sessions i).phase = .active := by
  by_contra hn
  have hids := h.ids
  rw [Connection.ids.eq_def (w.sessions i), (h.orderly.seated i).idle hn] at hids
  exact hne (List.suffix_nil.1 hids)

/-- One call of any session, which must spare the writes if it is session `i` itself. -/
theorem Since.call (h : Since db w₁ i key w) (hne : (w₁.sessions i).ids ≠ []) {j : Nat}
    {c : Session.Call} (hup : c.Upright) (hown : j = i → c.Spares key) :
    Since db w₁ i key (w.call db j c).2 := by
  have hs := h.orderly.sane
  have hc := h.orderly.seated j
  have horderly := h.orderly.call db j c
  have heff := c.run_effect db (p := w.view j) hs hc
  have hchg := c.connects_changes db.config (w.view j)
  have hdated := call_dated hs hc c
  refine ⟨horderly, ?_, ?_, h.dated.trans _ _ _ hdated, ?_, ?_⟩
  · exact (hchg.uniform hc.perched hs.sound h.uniform).of_txns heff.txns
  · exact heff.poisoned hup (hchg.spares.rows ▸ h.poisoned)
  · by_cases hj : j = i
    · subst hj
      have hremains := ((hown rfl).raises (w.view j) hs.sound hc (h.active hne)).2.2
      rw [← heff.connection] at hremains
      refine h.ids.trans ?_
      change _ <:+ ((w.put j _).sessions j).ids
      rwa [sessions_put]
    · change _ <:+ ((w.put j _).sessions i).ids
      rw [sessions_put_of_ne fun heq => hj heq.symm]
      exact h.ids
  · obtain ⟨old, hold, hforeign⟩ := h.versions
    obtain ⟨new, hnew, hwriter⟩ := versionsOf_call h.orderly c key (j := j)
    refine ⟨new ++ old, by rw [hnew, hold, List.append_assoc], fun v hv => ?_⟩
    rcases List.mem_append.1 hv with hv | hv
    · obtain ⟨htarget, e, rest, hst, hw⟩ := hwriter v hv
      have hj : j ≠ i := fun heq => (hown heq).target htarget
      exact foreign_of_leaf horderly hj hst hw
    · exact (hforeign v hv).later h.dated hdated hs.sound horderly.sane.sound
        fun id hid => mem_ids_call h.orderly c hid

/-- What only writes markers dates nothing. -/
theorem onServices_dated {max : Nat} (h : w.Orderly max) {a : Act Services Empty Unit}
    (ha : Act.Keeps (Services.Marked max) a) : w.services.Dated (w.onServices a).services := by
  obtain ⟨_, htxns, halike⟩ := ha w.services h.sane
  have helapsed : w.services.Elapsed (w.onServices a).services :=
    ⟨congrArg Clock.reading halike.clock.symm, (congrArg Clock.taken halike.clock).le⟩
  exact helapsed.dated htxns

/-- What only writes markers. -/
theorem Since.onServices (h : Since db w₁ i key w) {a : Act Services Empty Unit}
    (ha : Act.Keeps (Services.Marked db.config.maxAncestorDepth.toNat) a) :
    Since db w₁ i key (w.onServices a) := by
  obtain ⟨_, htxns, halike⟩ := ha w.services h.orderly.sane
  have horderly := h.orderly.onServices ha
  have hdated := onServices_dated h.orderly ha
  refine ⟨horderly, h.uniform.of_txns htxns, halike.poisoned ▸ h.poisoned,
    h.dated.trans _ _ _ hdated, h.ids, ?_⟩
  obtain ⟨old, hold, hforeign⟩ := h.versions
  refine ⟨old, ?_, fun v hv => (hforeign v hv).later h.dated hdated h.orderly.sane.sound
    horderly.sane.sound fun id hid => .inl hid⟩
  rw [← hold, ← RowStore.versionsOf_unmarked, ← RowStore.versionsOf_unmarked]
  exact (RowStore.versionsOf_congr halike.versions key).symm

/-- Any number of events. -/
theorem Since.run (h : Since db w₁ i key w) (hne : (w₁.sessions i).ids ≠ []) {es : List Event}
    (hes : ∀ e ∈ es, e.Spares i key) : Since db w₁ i key (w.run db es).2 :=
  run_keeps h (fun _ _ _ hm hw => hw.call hne (hes _ hm).1 (hes _ hm).2)
    (fun _ hw => hw.onServices (Services.runWriters_marked _))
    fun _ hw => hw.onServices (db.shutdown_marked _)

/-- Without a savepoint the stack of the session stays the same. -/
theorem Since.ids_run (h : Since db w₁ i key w) (hne : (w₁.sessions i).ids ≠ []) {es : List Event}
    (hes : ∀ e ∈ es, e.Spares i key) (hno : ∀ name, .call i (.savepoint name) ∉ es) :
    ((w.run db es).2.sessions i).ids = (w.sessions i).ids := by
  induction es generalizing w with
  | nil => rfl
  | cons e es ih =>
    have hes' : ∀ e ∈ es, e.Spares i key := fun e he => hes e (List.mem_cons_of_mem _ he)
    have hno' : ∀ name, .call i (.savepoint name) ∉ es := fun name hm =>
      hno name (List.mem_cons_of_mem _ hm)
    have he := hes e (List.mem_cons_self ..)
    cases e with
    | call j c =>
      refine (ih (h.call hne he.1 he.2) hes' hno').trans ?_
      change ((w.put j _).sessions i).ids = _
      by_cases hj : j = i
      · subst hj
        have heff := c.run_effect db (p := w.view j) h.orderly.sane (h.orderly.seated j)
        have hholds := (he.2 rfl).holds (fun name hc => hno name (hc ▸ List.mem_cons_self ..))
          (w.view j) h.orderly.sane.sound (h.orderly.seated j) (h.active hne)
        rw [sessions_put, heff.connection]
        exact hholds.2.2.symm
      · rw [sessions_put_of_ne fun heq => hj heq.symm]
    | drain => exact ih (h.onServices (Services.runWriters_marked _)) hes' hno'
    | shutdown => exact ih (h.onServices (db.shutdown_marked _)) hes' hno'

/-! ## What is read -/

/-- The versions of the key are those stored since, all foreign, and those of before. -/
theorem Since.versionsOf_eq (h : Since db w₁ i key w) :
    ∃ before, w.services.rows.versionsOf key = storedSince w₁ w key ++ before ∧
      before.map RowVersion.unmarked =
        (w₁.services.rows.versionsOf key).map RowVersion.unmarked ∧
      ∀ v ∈ storedSince w₁ w key, Foreign w₁ i w v := by
  obtain ⟨new, hnew, hforeign⟩ := h.versions
  have hlen := congrArg List.length hnew
  rw [List.length_append, List.length_map, List.length_map] at hlen
  have htake : (storedSince w₁ w key).map RowVersion.unmarked = new := by
    rw [storedSince, List.map_take, hnew, hlen, Nat.add_sub_cancel, List.take_left]
  refine ⟨(w.services.rows.versionsOf key).drop new.length, ?_, ?_, fun v hv => ?_⟩
  · rw [storedSince, hlen, Nat.add_sub_cancel, List.take_append_drop]
  · rw [List.map_drop, hnew, List.drop_left]
  · exact hforeign v.unmarked (htake ▸ List.mem_map_of_mem hv)

/-- A get of session `i` answers the newest version that was published since at or before the begin
of its leaf, else the version that it had written. -/
theorem Since.get_eq (h : Since db w₁ i key w) (hiso : db.config.defaultIsolation = .snapshot)
    {own : RowVersion} {older : List RowVersion} {writer : TxnId} {value : Bytes}
    (hid : writer ∈ (w₁.sessions i).ids) (hw : own.writer = some writer)
    (hvalue : own.value = some value)
    (hown : w₁.services.rows.versionsOf key = own :: older) :
    ∃ e rest, (w.sessions i).stack = e :: rest ∧
      (w.call db i (.get key)).1 = .ok (.value (((storedSince w₁ w key).find?
        (w.services.ledger.published db.config.maxAncestorDepth.toNat
          e.txn.beginTimestamp)).elim (some value) (·.value))) := by
  have hc := h.orderly.seated i
  have hs := h.orderly.sane
  have hmem := h.ids.subset hid
  cases hst : (w.sessions i).stack with
  | nil =>
    rw [Connection.ids, hst] at hmem
    cases hmem
  | cons e rest =>
    refine ⟨e, rest, rfl, ?_⟩
    have hactive := h.active (List.ne_nil_of_mem hid)
    have hleaf : (Connection.activeTxn db.config).exec (w.view i) = (.ok e.txn, w.view i) := by
      rw [Connection.activeTxn, Act.exec_bind_ok (Connection.exec_ensureActive_active hactive),
        Connection.exec_leaf_cons hst]
    obtain ⟨s, hx, _⟩ := Session.exec_get db hleaf hs hc key
    have hpois : (w.view i).2.rows.poisoned = false := h.poisoned
    rw [State.call, Session.Call.run, Act.exec_map, hx, if_neg (by rw [hpois]; decide)]
    obtain ⟨before, hsplit, hbefore, hforeign⟩ := h.versionsOf_eq
    rw [hown, List.map_cons] at hbefore
    obtain ⟨own', older', rfl, hmark, _⟩ := List.map_eq_cons_iff.1 hbefore
    have hiso' : e.txn.isolation = .snapshot :=
      hiso ▸ hc.perched.isolation h.uniform (by simp [hst])
    have hsees : (w.view i).2.ledger.sees db.config.maxAncestorDepth.toNat e.txn own' = true :=
      hc.sees_mine hs.sound hst ((congrArg RowVersion.writer hmark).trans hw) hmem
    have hfind : (storedSince w₁ w key).find?
          ((w.view i).2.ledger.sees db.config.maxAncestorDepth.toNat e.txn) =
        (storedSince w₁ w key).find? (w.services.ledger.published
          db.config.maxAncestorDepth.toNat e.txn.beginTimestamp) := by
      refine List.find?_congr fun v hv => ?_
      obtain ⟨other, k, hv, hk, hno, _⟩ := hforeign v hv
      exact hc.sees_other hs.sound hst hv hk hno hiso'
    change Except.ok (Session.Answer.value ((((w.services.rows.versionsOf key).find? _).bind
      (·.value)))) = _
    rw [hsplit, List.find?_append, hfind, List.find?_cons_of_pos hsees]
    cases (storedSince w₁ w key).find? _ with
    | some v => rfl
    | none => exact congrArg _ (congrArg _ ((congrArg RowVersion.value hmark).trans hvalue))

/-- Nothing was published since by the begin of a leaf that session `i` already had. -/
theorem Since.find?_published (h : Since db w₁ i key w) {s : Services} {max : Nat}
    {e : Savepoint} {t : Txn} (hdated : s.Dated w₁.services) (hnew : s.ledger.find? t.id = none)
    (hrises : s.clock.Rises s.clock.taken w.services.clock.taken)
    (hs : w.services.ledger.Sound max) (ht : w₁.services.ledger.find? t.id = some t)
    (he : e.txn.id = t.id) (hc : (w.sessions i).Seated w.services.ledger)
    (hmem : e ∈ (w.sessions i).stack) :
    (storedSince w₁ w key).find? (w.services.ledger.published max e.txn.beginTimestamp) = none := by
  -- the leaf began before `w₁`
  have hbegin : e.txn.beginTimestamp = t.beginTimestamp := by
    obtain ⟨u, hu, hb⟩ := hc.stacked.find? hmem
    obtain ⟨u', hu', htu⟩ := h.dated.grows t.id t ht
    rw [← he, hu] at hu'
    cases hu'
    rw [← Txn.begin_of_origin (Txn.origin_of_bare hb), Txn.begin_of_origin htu.origin]
  have hdrawn := hdated.begun t.id t ht hnew
  obtain ⟨_, _, _, hforeign⟩ := h.versionsOf_eq
  refine List.find?_eq_none.2 fun v hv hp => ?_
  obtain ⟨writer, k, hw, hk, _, hcom⟩ := hforeign v hv
  obtain ⟨ts, hts, hle⟩ := (Ledger.published_eq hs hw hk).1 hp
  have hlt := hdrawn.lt (hcom ts hts) hdated.toElapsed hrises
  rw [hbegin] at hle
  exact absurd hlt (Nat.not_lt_of_le hle)

/-! ## From the opening -/

/-- After a put that succeeds, the newest version of the key is the one that the leaf put. -/
theorem of_put {table : Table} {value : Bytes} (h : w.Orderly db.config.maxAncestorDepth.toNat)
    (hput : w.call db i (.put table key value) = (.ok .done, w₁)) :
    ∃ e rest, (w₁.sessions i).stack = e :: rest ∧ w₁.services.rows.poisoned = false ∧
      ∃ older, w₁.services.rows.versionsOf key =
        { key, writer := some e.txn.id, value := some value } :: older := by
  rw [call, Session.Call.run] at hput
  rcases hx : ((fun _ => Session.Answer.done) <$> Session.put db table key value).exec
    (w.view i) with ⟨res, p'⟩
  rw [hx] at hput
  cases hput
  obtain ⟨_, hx, _⟩ := Act.exec_map_eq_ok hx
  obtain ⟨e, rest, hst, hpois, hversions⟩ := Session.put_ok h.sane (h.seated i) hx
  refine ⟨e, rest, by rw [sessions_put, hst], hpois, w.services.rows.versionsOf key, ?_⟩
  change List.filter _ p'.2.rows.versions = _
  rw [hversions, List.filter_cons_of_pos (by simp)]
  rfl

theorem call_uniform (h : w.Orderly db.config.maxAncestorDepth.toNat)
    (hu : w.services.ledger.Uniform db.config.defaultIsolation) (j : Nat) (c : Session.Call) :
    (w.call db j c).2.services.ledger.Uniform db.config.defaultIsolation := by
  have hs := h.sane
  have hc := h.seated j
  exact ((c.connects_changes db.config (w.view j)).uniform hc.perched hs.sound hu).of_txns
    (c.run_effect db (p := w.view j) hs hc).txns

/-- What holds of a database that went on from `w₁` to `w`: what is newly dated was dated on the way,
and all levels are the default one. -/
structure Onward (db : Database) (w₁ w : State) : Prop where
  orderly : w.Orderly db.config.maxAncestorDepth.toNat
  dated : w₁.services.Dated w.services
  uniform : w.services.ledger.Uniform db.config.defaultIsolation

theorem Onward.call (h : Onward db w₁ w) (j : Nat) (c : Session.Call) :
    Onward db w₁ (w.call db j c).2 where
  orderly := h.orderly.call db j c
  dated := h.dated.trans _ _ _ (call_dated h.orderly.sane (h.orderly.seated j) c)
  uniform := call_uniform h.orderly h.uniform j c

theorem Onward.onServices (h : Onward db w₁ w) {a : Act Services Empty Unit}
    (ha : Act.Keeps (Services.Marked db.config.maxAncestorDepth.toNat) a) :
    Onward db w₁ (w.onServices a) where
  orderly := h.orderly.onServices ha
  dated := h.dated.trans _ _ _ (onServices_dated h.orderly ha)
  uniform := h.uniform.of_txns (ha w.services h.orderly.sane).2.1

/-- What is newly dated after a run was dated in the run, and all levels are the default one. -/
theorem Orderly.run_dated (h : w.Orderly db.config.maxAncestorDepth.toNat)
    (hu : w.services.ledger.Uniform db.config.defaultIsolation) (es : List Event) :
    w.services.Dated (w.run db es).2.services ∧
      (w.run db es).2.services.ledger.Uniform db.config.defaultIsolation := by
  have hnow : Onward db w w := ⟨h, .refl _, hu⟩
  have hlater : Onward db w (w.run db es).2 :=
    run_keeps hnow (fun _ j c _ hw => hw.call j c)
      (fun _ hw => hw.onServices (Services.runWriters_marked _))
      fun _ hw => hw.onServices (db.shutdown_marked _)
  exact ⟨hlater.dated, hlater.uniform⟩

/-- A session has put a value under a key of a database that was opened on fresh services, in which
all sessions read snapshots. Since then it undid nothing and did not write the key again; the other
sessions did anything, but nobody scanned a range that starts after its end. Then a get of the
session answers the newest version of the key that was stored since then by a transaction which
committed at or before the begin of the leaf of the session, else the value that it had put. If it
set no savepoint since then, there is no such version. -/
theorem get_put {config : Config} (hiso : config.defaultIsolation = .snapshot) {s t : Services}
    (hs : s.Fresh) {db : Database} (hstart : (start config).exec s = (.ok db, t))
    (names : Nat → String) (past : List Event) {i : Nat} {table : Table} {key : Key}
    {value : Bytes} {w₁ w : State}
    (hput : ((opened db names t).run db past).2.call db i (.put table key value) =
      (.ok .done, w₁)) {es : List Event} (hes : ∀ e ∈ es, e.Spares i key)
    (hw : (w₁.run db es).2 = w)
    (hrises : s.clock.Rises s.clock.taken w.services.clock.taken) :
    ∃ leaf, (w.sessions i).leaf? = some leaf ∧
      (w.call db i (.get key)).1 = .ok (.value (((storedSince w₁ w key).find?
        (w.services.ledger.published config.maxAncestorDepth.toNat
          leaf.beginTimestamp)).elim (some value) (·.value))) ∧
      ((∀ name, .call i (.savepoint name) ∉ es) →
        (w.call db i (.get key)).1 = .ok (.value (some value))) := by
  obtain ⟨rfl, hfresh, halike⟩ := start_ok hstart hs
  have hopened := State.opened_orderly db names hfresh db.config.maxAncestorDepth.toNat
  have hempty : ∀ id, (opened db names t).services.ledger.find? id = none := fun id => by
    rw [Ledger.find?, show (opened db names t).services.ledger.txns = [] from hfresh.txns]
    rfl
  have huniform : (opened db names t).services.ledger.Uniform db.config.defaultIsolation := by
    intro id u hu
    rw [hempty] at hu
    cases hu
  obtain ⟨hdated, huniform⟩ := hopened.run_dated huniform past
  have horderly := hopened.run db past
  generalize ((opened db names t).run db past).2 = w₀ at *
  have hdated₁ := call_dated horderly.sane (horderly.seated i) (.put table key value)
  have huniform₁ := call_uniform horderly huniform i (.put table key value)
  have horderly₁ := horderly.call db i (.put table key value)
  rw [hput] at hdated₁ huniform₁ horderly₁
  obtain ⟨e, rest, hst, hpois, older, hown⟩ := of_put horderly hput
  have hids : e.txn.id ∈ (w₁.sessions i).ids := by
    rw [Connection.ids, hst]
    exact List.mem_cons_self ..
  have hnow : Since db w₁ i key w₁ :=
    ⟨horderly₁, huniform₁, hpois, .refl _, List.suffix_refl _, [], rfl, List.forall_mem_nil _⟩
  have hsince : Since db w₁ i key w := hw ▸ hnow.run (List.ne_nil_of_mem hids) hes
  obtain ⟨d, below, hstw, hget⟩ := hsince.get_eq hiso hids rfl rfl hown
  refine ⟨d.txn, by rw [Connection.leaf?, hstw]; rfl, hget, fun hno => ?_⟩
  -- the leaf is the one that put the value
  have hsame := hnow.ids_run (List.ne_nil_of_mem hids) hes hno
  rw [hw, Connection.ids, Connection.ids, hst, hstw] at hsame
  obtain ⟨u, hu, hb⟩ :=
    (horderly₁.seated i).stacked.find? (by rw [hst]; exact List.mem_cons_self ..)
  have huid : u.id = e.txn.id := Txn.id_of_origin (Txn.origin_of_bare hb)
  rw [← huid] at hu
  rw [halike.clock] at hrises
  have hfind := hsince.find?_published (hdated.trans _ _ _ hdated₁) (hempty u.id) hrises
    hsince.orderly.sane.sound hu ((List.cons.inj hsame).1.trans huid.symm)
    (hsince.orderly.seated i) (by rw [hstw]; exact List.mem_cons_self ..)
  rw [hget, hfind]
  rfl

/-- A database with the usual settings. -/
def usual : Database := { config := {}, queue := some 0 }

/-- It was opened. -/
def usualOpen : State := opened usual (fun _ => "s") ((start {}).exec {}).2

/-- Session 0 has put a value. -/
def usualPut : State := (usualOpen.call usual 0 (.put "t" [1] [2])).2

/-- Another session replaces the value and commits, and session 0 writes elsewhere. -/
def replacing : List Event :=
  [.call 1 (.put "t" [1] [3]), .call 1 .commit, .call 0 (.put "t" [2] [4]), .drain,
    .call 0 (.scan [0] none)]

theorem usual_started : (start {}).exec {} = (.ok usual, ((start {}).exec {}).2) := rfl

theorem usual_put :
    (usualOpen.run usual []).2.call usual 0 (.put "t" [1] [2]) = (.ok .done, usualPut) := rfl

/-- Without a savepoint the session reads the value that it had put. -/
theorem get_put_kept :
    ((usualPut.run usual replacing).2.call usual 0 (.get [1])).1 = .ok (.value (some [2])) := by
  have hes : ∀ e ∈ replacing, e.Spares 0 [1] := by
    simp [replacing, Event.Spares, Session.Call.Spares, Session.Call.Upright]
  have hrises : Clock.standard.Rises 0 3 := Clock.rises_standard (by decide)
  obtain ⟨_, _, _, hget⟩ := get_put rfl Services.fresh_default usual_started (fun _ => "s") []
    usual_put hes rfl hrises
  exact hget (by simp [replacing])

/-- After a savepoint it reads what another session has stored and committed in between. -/
theorem get_put_replaced :
    (usualOpen.run usual []).2.call usual 0 (.put "t" [1] [2]) = (.ok .done, usualPut) ∧
      (∀ e ∈ replacing ++ [.call 0 (.savepoint "a")], e.Spares 0 [1]) ∧
      ((usualPut.run usual (replacing ++ [.call 0 (.savepoint "a")])).2.call usual 0
        (.get [1])).1 = .ok (.value (some [3])) := by
  refine ⟨usual_put, ?_, by decide +kernel⟩
  simp [replacing, Event.Spares, Session.Call.Spares, Session.Call.Upright]

end State

end Database

end NestedTxn
