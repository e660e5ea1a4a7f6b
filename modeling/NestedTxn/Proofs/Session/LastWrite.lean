import NestedTxn.Proofs.Connection.Aged
import NestedTxn.Proofs.Session.Housed
import NestedTxn.Proofs.Session.OwnWrites
import NestedTxn.Proofs.Visibility.Rows

/-!
# Sessions and the last write

* `Ledger.liveRoot?`: the outermost transaction above the writer of a version, if the write was not
  undone. `Services.lastWrite?`: the last write of a key, in the order of the writes, of a
  transaction that was not undone and whose outermost transaction is committed, or is a given one.
* `Session.Call.Reads`: the calls that read a key, a get or a scan of a range with it.
  `Session.Answer.shown?`: what an answer shows of a key.
* `Database.State.Overseen`: an orderly database in which parents began before their children, and
  every active transaction is on the stack of a session or concluded. Every event keeps that.
* `Database.State.read_last_write`: so a session that begins after the writers of a key committed
  reads the last write of the key, whichever of them committed last.
-/

namespace NestedTxn

namespace Ledger

/-- The outermost transaction above the writer of a version, unless one of the transactions up to it
is rolled back: then the write was undone. -/
def liveRoot? (l : Ledger) (max : Nat) (v : RowVersion) : Option Txn :=
  v.writer.bind fun writer =>
    let chain := l.lineage (max + 1) writer
    if chain.any (·.state = .rolledBack) then none else chain.getLast?

theorem liveRoot?_eq {l : Ledger} {max : Nat} {v : RowVersion} {writer : TxnId} {k : List Txn}
    (hs : l.Sound max) (hw : v.writer = some writer) (hk : l.Chain writer k) :
    l.liveRoot? max v = if ∃ u ∈ k, u.state = .rolledBack then none else k.getLast? := by
  obtain ⟨_, _, rfl, _⟩ := hk.eq_cons
  rw [liveRoot?, hw, Option.bind_some, hk.lineage_eq (Nat.succ_le_succ (hk.length_le hs))]
  simp only [List.any_eq_true, decide_eq_true_eq]

end Ledger

/-- The last write of `key` that counts for a reader below the outermost transaction `own`: it was
not undone, and its outermost transaction is committed, or `own`. -/
def Services.lastWrite? (s : Services) (max : Nat) (own : TxnId) (key : Key) : Option RowVersion :=
  (s.rows.versionsOf key).find? fun v =>
    (s.ledger.liveRoot? max v).any fun r => r.state = .committed ∨ r.id = own

namespace Session

/-- The call reads `key`. -/
def Call.Reads (key : Key) : Call → Prop
  | .get k => k = key
  | .scan start stop => RowStore.within start stop key = true
  | _ => False

/-- What an answer shows of a key: a value, or that it is absent. -/
def Answer.shown? (key : Key) : Answer → Option (Option Bytes)
  | .value v => some v
  | .rows shown => some (shown.lookup key)
  | _ => none

/-- A range with a key does not start after its end. -/
theorem Call.Reads.upright {key : Key} {c : Call} (h : c.Reads key) : c.Upright := by
  cases c with
  | scan start stop =>
    obtain ⟨hstart, hstop⟩ := Bool.and_eq_true_iff.1 h
    cases stop with
    | none => rfl
    | some stop =>
      have hlt : start < stop :=
        List.lt_of_le_of_lt (of_decide_eq_true hstart) (of_decide_eq_true hstop)
      exact decide_eq_false fun hgt => List.lt_irrefl _ (List.lt_trans hlt hgt)
  | _ => trivial

end Session

/-- A seated connection that cannot begin a transaction has none. -/
theorem Connection.activeTxn_error {config : Config} {p q : Connection × Services} {e : TxnError}
    (hc : p.1.Seated p.2.ledger) (h : (activeTxn config).exec p = (.error e, q)) :
    q.1.stack = [] := by
  rw [activeTxn] at h
  rcases ensureActive_cases config p with ⟨err, s', hx, _⟩ | ⟨_, hx⟩ | ⟨ts, s', _, _, _, hx, _⟩
  · rw [Act.exec_bind_error hx] at h
    cases h
    refine hc.idle fun hp => ?_
    rw [exec_ensureActive_active hp] at hx
    cases hx
  · rw [Act.exec_bind_ok hx] at h
    cases hst : p.1.stack with
    | nil =>
      rw [exec_leaf_nil hst] at h
      cases h
      exact hst
    | cons d rest =>
      rw [exec_leaf_cons hst] at h
      cases h
  · rw [Act.exec_bind_ok hx, exec_leaf_cons rfl] at h
    cases h

namespace Database

/-- A scan goes upwards. -/
def Event.Upright : Event → Prop
  | .call _ c => c.Upright
  | .drain | .shutdown => True

namespace State

/-- An orderly database since `s₀`: parents began before their children, and every active
transaction is on the stack of a session or concluded. -/
structure Overseen (db : Database) (s₀ : Services) (w : State) : Prop where
  orderly : w.Orderly db.config.maxAncestorDepth.toNat
  uniform : w.services.ledger.Uniform db.config.defaultIsolation
  poisoned : w.services.rows.poisoned = false
  aged : s₀.Aged w.services
  housed : ∀ id t, w.services.ledger.find? id = some t → t.state = .active →
    (∃ i, id ∈ (w.sessions i).ids) ∨ w.services.ledger.Concluded id

variable {db : Database} {s₀ : Services} {w : State} {i : Nat} {key : Key}

theorem Overseen.call (h : Overseen db s₀ w) (j : Nat) {c : Session.Call} (hup : c.Upright) :
    Overseen db s₀ (w.call db j c).2 := by
  have hs := h.orderly.sane
  have hc := h.orderly.seated j
  have heff := c.run_effect db (p := w.view j) hs hc
  have hchg := c.connects_changes db.config (w.view j)
  have hmoved := hchg.moves hs.sound hc
  have haged : s₀.Aged ((c.connects db.config).exec (w.view j)).2.2 :=
    hchg.aged hc.perched hs.sound h.aged
  refine ⟨h.orderly.call db j c, call_uniform h.orderly h.uniform j c,
    heff.poisoned hup (hchg.spares.rows ▸ h.poisoned), ?_, ?_⟩
  · refine haged.of_txns hmoved.sound (Services.Elapsed.dated ?_ heff.txns) heff.txns
    exact ⟨congrArg Clock.reading heff.clock, (congrArg Clock.taken heff.clock).ge⟩
  · -- the stacks of the other sessions stay
    have hhoused : (w.sessions j).Housed (fun id => ∃ i ≠ j, id ∈ (w.sessions i).ids)
        w.services.ledger := by
      intro id t ht ha
      rcases h.housed id t ht ha with ⟨i, hid⟩ | hid
      · by_cases hij : i = j
        · exact .inl (hij ▸ hid)
        · exact .inr (.inl ⟨i, hij, hid⟩)
      · exact .inr (.inr hid)
    intro id t ht ha
    have hgrows : Ledger.Grows ((c.connects db.config).exec (w.view j)).2.2.ledger
        (w.call db j c).2.services.ledger := .of_txns heff.txns
    rcases hchg.housed hs.sound hc hhoused id t
        ((Ledger.find?_congr heff.txns id).symm.trans ht) ha with hid | ⟨i, hij, hid⟩ | hid
    · refine .inl ⟨j, ?_⟩
      change id ∈ ((w.put j _).sessions j).ids
      rwa [sessions_put, heff.connection]
    · refine .inl ⟨i, ?_⟩
      change id ∈ ((w.put j _).sessions i).ids
      rwa [sessions_put_of_ne hij]
    · exact .inr (hid.grows hgrows)

theorem Overseen.onServices (h : Overseen db s₀ w) {a : Act Services Empty Unit}
    (ha : Act.Keeps (Services.Marked db.config.maxAncestorDepth.toNat) a) :
    Overseen db s₀ (w.onServices a) := by
  obtain ⟨_, htxns, halike⟩ := ha w.services h.orderly.sane
  refine ⟨h.orderly.onServices ha, h.uniform.of_txns htxns, halike.poisoned ▸ h.poisoned,
    h.aged.of_txns h.orderly.sane.sound (onServices_dated h.orderly ha) htxns, fun id t ht hact => ?_⟩
  have hgrows : w.services.ledger.Grows (w.onServices a).services.ledger := .of_txns htxns
  exact (h.housed id t ((Ledger.find?_congr htxns id).symm.trans ht) hact).imp_right
    (·.grows hgrows)

theorem Overseen.run (h : Overseen db s₀ w) {es : List Event} (hes : ∀ e ∈ es, e.Upright) :
    Overseen db s₀ (w.run db es).2 :=
  run_keeps h (fun _ j _ hm hw => hw.call j (hes _ hm))
    (fun _ hw => hw.onServices (Services.runWriters_marked _))
    fun _ hw => hw.onServices (db.shutdown_marked _)

theorem opened_overseen (db : Database) (names : Nat → String) {s : Services} (hs : s.Fresh)
    (hp : s.rows.poisoned = false) : Overseen db s (opened db names s) := by
  have hempty : ∀ id t, (opened db names s).services.ledger.find? id ≠ some t := fun id t ht => by
    simp [Ledger.find?, show (opened db names s).services.ledger.txns = [] from hs.txns] at ht
  exact ⟨opened_orderly db names hs _, fun id t ht => absurd ht (hempty id t), hp,
    Services.aged_of_nil hs.txns, fun id t ht => absurd ht (hempty id t)⟩

/-! ## What is read -/

/-- The nodes of a chain below the bottom entry of session `i` are on its stack or committed, unless
one is rolled back. -/
theorem Overseen.off_stack (h : Overseen db s₀ w) {id : TxnId} {k : List Txn} {r u : Txn}
    (hk : w.services.ledger.Chain id k) (hr : k.getLast? = some r)
    (hid : r.id ∈ (w.sessions i).ids) (hu : u ∈ k) (hback : u.state ≠ .rolledBack) :
    u.id ∈ (w.sessions i).ids ∨ u.state = .committed := by
  have hmem := List.mem_of_getLast? hr
  cases hus : u.state with
  | rolledBack => exact absurd hus hback
  | committed => exact .inr rfl
  | active =>
    left
    obtain ⟨r', hr', _, hra⟩ := (h.orderly.seated i).root_mem hk ⟨r, hmem, hid⟩
    rw [hr] at hr'
    cases hr'
    rcases h.housed u.id u (hk.find?_of_mem hu) hus with ⟨j, huj⟩ | ⟨k', r', hk', hr', hrc⟩
    · -- the session whose stack holds `u` holds the root as well
      obtain ⟨r', hr', hrj, _⟩ := (h.orderly.seated j).root_mem hk ⟨u, hu, huj⟩
      rw [hr] at hr'
      cases hr'
      by_cases hij : i = j
      · exact hij ▸ huj
      · exact absurd hrj (h.orderly.apart i j hij r.id hid)
    · obtain ⟨t, rest, rfl, ht⟩ := hk'.eq_cons
      have hsame := hk.mem_ids_of_mem hk' (Ledger.mem_ids.2 ⟨u, hu, rfl⟩)
        (Ledger.mem_ids.2 ⟨t, by simp, Ledger.id_of_find? ht⟩)
      rw [hr, hr'] at hsame
      cases hsame
      rw [hra] at hrc
      cases hrc

/-- A leaf whose outermost transaction began after the commit of a writer sees what was not undone
and is committed, or written below its own outermost transaction. -/
theorem Overseen.sees_eq (h : Overseen db s₀ w) (hiso : db.config.defaultIsolation = .snapshot)
    (hrises : s₀.clock.Rises s₀.clock.taken w.services.clock.taken) {e b : Savepoint}
    {rest : List Savepoint} (hst : (w.sessions i).stack = e :: rest)
    (hb : (w.sessions i).stack.getLast? = some b) {v : RowVersion}
    (hv : v ∈ w.services.rows.versions)
    (hafter : ∀ r ∈ w.services.ledger.liveRoot? db.config.maxAncestorDepth.toNat v,
      ∀ ts ∈ r.commitTimestamp, ts < b.txn.beginTimestamp) :
    w.services.ledger.sees db.config.maxAncestorDepth.toNat e.txn v =
      (w.services.ledger.liveRoot? db.config.maxAncestorDepth.toNat v).any
        fun r => r.state = .committed ∨ r.id = b.txn.id := by
  have hs := h.orderly.sane.sound
  have hc := h.orderly.seated i
  have hleaf : e.txn.isolation = .snapshot :=
    hiso ▸ hc.perched.isolation h.uniform (by simp [hst])
  have hbmem : b.txn.id ∈ (w.sessions i).ids := List.mem_map_of_mem (List.mem_of_getLast? hb)
  obtain ⟨writer, k, hw, hk, _⟩ := h.orderly.sane.versions v hv
  rw [Ledger.liveRoot?_eq hs hw hk] at hafter ⊢
  by_cases hback : ∃ u ∈ k, u.state = .rolledBack
  · obtain ⟨u, hu, hur⟩ := hback
    rw [if_pos ⟨u, hu, hur⟩, hc.sees_undone hs hst hw hk hu hur]
    rfl
  rw [if_neg hback] at hafter ⊢
  have hlive : ∀ u ∈ k, u.state ≠ .rolledBack := fun u hu hur => hback ⟨u, hu, hur⟩
  obtain ⟨r, hr, _⟩ := hk.effectiveState_eq hs
  have hmem := List.mem_of_getLast? hr
  rw [hr, Option.any_some]
  cases hstate : r.state with
  | rolledBack => exact absurd hstate (hlive r hmem)
  | committed =>
    obtain ⟨ts, hts⟩ := Option.isSome_iff_exists.1
      ((hs r.id r (hk.find?_of_mem hmem)).stamped.1 hstate)
    rw [hc.sees_published hs hst hw hk
      ((hk.effectiveState_eq_committed hs).2 ⟨hlive, r, hr, hstate, hts⟩) hleaf]
    have hle := hc.begin_le h.aged hrises hst hb
    simpa using Nat.le_trans (Nat.le_of_lt (hafter r hr ts hts)) hle
  | active =>
    by_cases hown : r.id = b.txn.id
    · rw [hc.sees_own hs hst hw hk ⟨r, hmem, hown ▸ hbmem⟩ fun u hu =>
        h.off_stack hk hr (hown ▸ hbmem) hu (hlive u hu)]
      simp [hown]
    · -- a stack that holds a node of the chain has its root at the bottom
      have hno : ∀ u ∈ k, u.id ∉ (w.sessions i).ids := by
        intro u hu hid
        obtain ⟨r', b', hr', hb', hbr⟩ := hc.bottom_root hk ⟨u, hu, hid⟩
        rw [hr] at hr'
        rw [hb] at hb'
        cases hr'
        cases hb'
        exact hown hbr.symm
      rw [hc.sees_stranger hs hst hw hk hno
        ((hk.effectiveState_eq_active hs).2 ⟨hlive, r, hr, hstate⟩) hleaf]
      simp [hown]

/-- A read of a session that has a transaction afterwards shows what its leaf sees. -/
theorem call_of_bottom (h : w.Orderly db.config.maxAncestorDepth.toNat) {c : Session.Call}
    (hread : c.Reads key) {w' : State} (hw : (w.call db i c).2 = w') {b : Savepoint}
    (hb : (w'.sessions i).stack.getLast? = some b)
    (hpois : w'.services.rows.poisoned = false) :
    ∃ e rest answer, (w'.sessions i).stack = e :: rest ∧ (w.call db i c).1 = .ok answer ∧
      answer.shown? key = some (w'.services.rows.valueSeen
        (w'.services.ledger.sees db.config.maxAncestorDepth.toNat e.txn) key) := by
  have hs := h.sane
  have hc := h.seated i
  rw [call] at hw ⊢
  rcases hx : (Connection.activeTxn db.config).exec (w.view i) with ⟨err | reader, q⟩
  · have hnone := Connection.activeTxn_error hc hx
    cases c with
    | get k =>
      rw [Session.Call.run, Act.exec_map, Session.get, Session.exec_withFilter_error db hx] at hw
      cases hw
      rw [sessions_put, hnone] at hb
      cases hb
    | scan start stop =>
      rw [Session.Call.run, Act.exec_map, Session.scan, Session.exec_withFilter_error db hx] at hw
      cases hw
      rw [sessions_put, hnone] at hb
      cases hb
    | _ => cases hread
  · have hm := (Connection.activeTxn_shifts db.config (w.view i)).moves hs.sound hc
    rw [hx] at hm
    have hsane := hs.moved hc hm
    obtain ⟨_, q', _, hleaf⟩ := Act.exec_bind_eq_ok hx
    obtain ⟨rfl, e, rest, hst, rfl⟩ := Session.leaf_ok hleaf
    cases c with
    | get k =>
      obtain rfl : k = key := hread
      obtain ⟨s, hgot, halike, _⟩ := Session.exec_get db hx hsane hm.seated k
      rw [Session.Call.run, Act.exec_map, hgot] at hw ⊢
      cases hw
      have hpois' : q.2.rows.poisoned = false := halike.poisoned.trans hpois
      rw [if_neg (by rw [hpois']; decide)]
      exact ⟨e, rest, _, by rw [sessions_put, hst], rfl, congrArg some (halike.get_eq _ _ k)⟩
    | scan start stop =>
      obtain ⟨s, hgot, halike, _⟩ := Session.exec_scan db hx hsane hm.seated start stop
      rw [Session.Call.run, Act.exec_map, hgot] at hw ⊢
      cases hw
      obtain ⟨hpois', hinv⟩ : q.2.rows.poisoned = false ∧
          decide (SnapshotFilter.inverted q.2.rows start stop) = false :=
        Bool.or_eq_false_iff.1 (halike.poisoned.trans hpois)
      rw [if_neg (by rw [hpois']; decide), if_neg (of_decide_eq_false hinv)]
      refine ⟨e, rest, _, by rw [sessions_put, hst], rfl, ?_⟩
      exact congrArg some ((SnapshotFilter.lookup_rowsSeen hread).trans (halike.get_eq _ _ key))
    | _ => cases hread

/-- In a database that was opened on fresh services, in which all sessions read snapshots and nobody
scanned a range that starts after its end, a session reads a key, and its outermost transaction is
`own` then. If all writers of the key that are committed committed before `own` began, the session
is shown the last write of the key that was not undone, in the order of the writes, among those of
committed transactions and of `own`. Nothing depends on the order in which they committed. -/
theorem read_last_write {config : Config} (hiso : config.defaultIsolation = .snapshot)
    {s t : Services} (hs : s.Fresh) (hp : s.rows.poisoned = false) {db : Database}
    (hstart : (start config).exec s = (.ok db, t)) (names : Nat → String) {es : List Event}
    (hes : ∀ e ∈ es, e.Upright) {i : Nat} {c : Session.Call} {key : Key} (hread : c.Reads key)
    {w : State} (hw : (((opened db names t).run db es).2.call db i c).2 = w) {own : Txn}
    (hown : (w.sessions i).bottom? = some own)
    (hafter : ∀ v ∈ w.services.rows.versionsOf key,
      ∀ r ∈ w.services.ledger.liveRoot? config.maxAncestorDepth.toNat v,
      ∀ ts ∈ r.commitTimestamp, ts < own.beginTimestamp)
    (hrises : s.clock.Rises s.clock.taken w.services.clock.taken) :
    ∃ answer, (((opened db names t).run db es).2.call db i c).1 = .ok answer ∧
      answer.shown? key = some
        ((w.services.lastWrite? config.maxAncestorDepth.toNat own.id key).bind (·.value)) := by
  obtain ⟨rfl, hfresh, halike⟩ := start_ok hstart hs
  have hbefore := (opened_overseen db names hfresh (halike.poisoned ▸ hp)).run hes
  have hnow := hbefore.call i hread.upright
  rw [hw] at hnow
  obtain ⟨b, hb, rfl⟩ := Option.map_eq_some_iff.1 hown
  obtain ⟨e, rest, answer, hst, hanswer, hshown⟩ :=
    call_of_bottom hbefore.orderly hread hw hb hnow.poisoned
  rw [halike.clock] at hrises
  have hfind : w.services.lastWrite? db.config.maxAncestorDepth.toNat b.txn.id key =
      (w.services.rows.versionsOf key).find?
        (w.services.ledger.sees db.config.maxAncestorDepth.toNat e.txn) :=
    List.find?_congr fun v hv =>
      (hnow.sees_eq hiso hrises hst hb (List.mem_filter.1 hv).1 (hafter v hv)).symm
  exact ⟨answer, hanswer, by rw [hshown, hfind, RowStore.valueSeen]⟩

/-- Session 0 writes first and commits last, session 1 undoes its second write, and session 2 has not
committed. -/
def overlapping : List Event :=
  [.call 0 (.put "t" [1] [2]), .call 1 (.put "t" [1] [3]), .call 1 (.savepoint "a"),
    .call 1 (.put "t" [1] [4]), .call 1 (.rollbackTo "a"), .call 1 .commit, .call 0 .commit,
    .call 2 (.put "t" [1] [5])]

/-- Session 3 begins after that, and gets the key. -/
def overread : State := ((usualOpen.run usual overlapping).2.call usual 3 (.get [1])).2

/-- It reads what session 1 wrote before the savepoint. -/
theorem read_last_write_overlapping :
    (overread.sessions 3).bottom? = some (.root 8 8 .snapshot) ∧
      (∀ v ∈ overread.services.rows.versionsOf [1],
        ∀ r ∈ overread.services.ledger.liveRoot? 64 v, ∀ ts ∈ r.commitTimestamp, ts < 8) ∧
      ∃ answer, ((usualOpen.run usual overlapping).2.call usual 3 (.get [1])).1 = .ok answer ∧
        answer.shown? [1] = some (some [3]) := by
  have hes : ∀ e ∈ overlapping, e.Upright := by
    simp [overlapping, Event.Upright, Session.Call.Upright]
  have hown : (overread.sessions 3).bottom? = some (.root 8 8 .snapshot) := by decide +kernel
  have hafter : ∀ v ∈ overread.services.rows.versionsOf [1],
      ∀ r ∈ overread.services.ledger.liveRoot? 64 v, ∀ ts ∈ r.commitTimestamp, ts < 8 := by
    decide +kernel
  have htaken : overread.services.clock.taken = 8 := by decide +kernel
  have hrises : Clock.standard.Rises 0 overread.services.clock.taken := by
    rw [htaken]
    exact Clock.rises_standard (by decide)
  have hlast : (overread.services.lastWrite? 64 8 [1]).bind (·.value) = some [3] := by
    decide +kernel
  obtain ⟨answer, hanswer, hshown⟩ := read_last_write (i := 3) (c := .get [1]) (w := overread) rfl
    Services.fresh_default rfl usual_started (fun _ => "s") hes rfl rfl hown hafter hrises
  exact ⟨hown, hafter, answer, hanswer, hshown.trans (congrArg some hlast)⟩

/-- Session 0 commits last of all that wrote the key, but its write is not the one that is read. -/
theorem last_committer_not_read :
    ((overread.services.rows.versionsOf [1]).filterMap fun v =>
        (overread.services.ledger.liveRoot? 64 v).bind fun r =>
          r.commitTimestamp.map fun ts => (v.value, ts)) = [(some [3], 5), (some [2], 6)] ∧
      (overread.sessions 3).bottom?.map (·.beginTimestamp) = some 8 ∧
      ((usualOpen.run usual overlapping).2.call usual 3 (.get [1])).1 =
        .ok (.value (some [3])) := by
  decide +kernel

end State

end Database

end NestedTxn
