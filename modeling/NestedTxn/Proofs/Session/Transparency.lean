import NestedTxn.Proofs.Connection.Agreement
import NestedTxn.Proofs.Session.Safety

/-!
# Caching outcomes is transparent to sessions

* `RowStore.unmarked`: the rows without their markers. What a get or a scan shows is the same with
  and without them, if versions are seen or not by their writers.
* `Database.State.Twins w w'`: two orderly databases with the same sessions on alike services.
* `Session.Call.run_agrees`: a call of a session answers alike on twins, whatever caches outcomes.
* `Database.State.run_transparent`: so do all calls of a run, with the writers of resolutions at
  work in between.
-/

namespace NestedTxn

/-! ## Rows without markers -/

namespace RowStore

/-- The rows without their markers. -/
def unmarked (r : RowStore) : RowStore :=
  { r with versions := r.versions.map RowVersion.unmarked }

theorem versionsOf_unmarked (r : RowStore) (key : Key) :
    r.unmarked.versionsOf key = (r.versionsOf key).map RowVersion.unmarked := by
  rw [versionsOf, unmarked, List.filter_map]
  rfl

theorem keys_unmarked (r : RowStore) : r.unmarked.keys = r.keys := by
  simp [keys, unmarked, Function.comp_def, RowVersion.unmarked]

theorem inRange_unmarked (r : RowStore) (start : Key) (stop : Option Key) :
    r.unmarked.inRange start stop = (r.inRange start stop).map RowVersion.unmarked := by
  rw [inRange, inRange, keys_unmarked, List.map_flatMap, funext (versionsOf_unmarked r)]

/-- Rows with the same unmarked versions have the same views without markers. -/
theorem versionsOf_congr {r t : RowStore} (h : r.unmarked.versions = t.unmarked.versions)
    (key : Key) : r.unmarked.versionsOf key = t.unmarked.versionsOf key := by
  rw [versionsOf, versionsOf, h]

theorem inRange_congr {r t : RowStore} (h : r.unmarked.versions = t.unmarked.versions)
    (start : Key) (stop : Option Key) :
    r.unmarked.inRange start stop = t.unmarked.inRange start stop := by
  rw [inRange, inRange, keys, keys, h, funext (versionsOf_congr h)]

end RowStore

/-- Markers are not seen. -/
theorem Ledger.sees_unmarked (l : Ledger) (depth : Nat) (reader : Txn) (v : RowVersion) :
    l.sees depth reader v.unmarked = l.sees depth reader v := rfl

/-- The value of the first version that is seen, with and without markers. -/
theorem find?_unmarked {p : RowVersion → Bool} (hp : ∀ v, p v.unmarked = p v)
    (vs : List RowVersion) :
    ((vs.map RowVersion.unmarked).find? p).bind (·.value) = (vs.find? p).bind (·.value) := by
  rw [List.find?_map, show p ∘ RowVersion.unmarked = p from funext hp]
  cases vs.find? p <;> rfl

/-- The rows that are seen, with and without markers. -/
theorem SnapshotFilter.rowsSeen_unmarked {p : RowVersion → Bool} (hp : ∀ v, p v.unmarked = p v)
    (decided : Option Key) (vs : List RowVersion) :
    rowsSeen p decided (vs.map RowVersion.unmarked) = rowsSeen p decided vs := by
  induction vs generalizing decided with
  | nil => rfl
  | cons v vs ih =>
    rw [List.map_cons, rowsSeen, rowsSeen, hp, ih, ih]
    rfl

namespace Services

variable {s t : Services}

/-- A get on alike services shows the same. -/
theorem Alike.get_eq (h : s.Alike t) (depth : Nat) (reader : Txn) (key : Key) :
    ((s.rows.versionsOf key).find? (s.ledger.sees depth reader)).bind (·.value) =
      ((t.rows.versionsOf key).find? (t.ledger.sees depth reader)).bind (·.value) := by
  have hv := RowStore.versionsOf_congr (r := s.rows) (t := t.rows) h.versions key
  rw [RowStore.versionsOf_unmarked, RowStore.versionsOf_unmarked] at hv
  rw [← find?_unmarked (Ledger.sees_unmarked _ _ _), hv, find?_unmarked (Ledger.sees_unmarked _ _ _),
    Ledger.sees_congr h.txns]

/-- A scan on alike services shows the same. -/
theorem Alike.scan_eq (h : s.Alike t) (depth : Nat) (reader : Txn) (start : Key)
    (stop : Option Key) :
    SnapshotFilter.rowsSeen (s.ledger.sees depth reader) none (s.rows.inRange start stop) =
      SnapshotFilter.rowsSeen (t.ledger.sees depth reader) none (t.rows.inRange start stop) := by
  have hv := RowStore.inRange_congr (r := s.rows) (t := t.rows) h.versions start stop
  rw [RowStore.inRange_unmarked, RowStore.inRange_unmarked] at hv
  rw [← SnapshotFilter.rowsSeen_unmarked (Ledger.sees_unmarked _ _ _), hv,
    SnapshotFilter.rowsSeen_unmarked (Ledger.sees_unmarked _ _ _), Ledger.sees_congr h.txns]

/-- A scan of alike services crashes alike. -/
theorem Alike.inverted_iff (h : s.Alike t) (start : Key) (stop : Option Key) :
    SnapshotFilter.inverted s.rows start stop ↔ SnapshotFilter.inverted t.rows start stop := by
  have he : s.rows.versions = [] ↔ t.rows.versions = [] := by
    rw [← List.map_eq_nil_iff (f := RowVersion.unmarked), h.versions, List.map_eq_nil_iff]
  simp only [SnapshotFilter.inverted, ne_eq, he]

end Services

/-! ## Calls of sessions -/

namespace Connection

theorem elevateStack_caching (config : Config) (b : Bool) (table : Table) (st : List Savepoint) :
    elevateStack { config with readResolution := b } table st = elevateStack config table st := by
  induction st with
  | nil => rfl
  | cons e rest ih =>
    rw [elevateStack, elevateStack, ih]
    rfl

theorem elevate_caching (config : Config) (b : Bool) (table : Table) :
    elevate { config with readResolution := b } table = elevate config table := by
  unfold elevate
  simp only [elevateStack_caching]
  rfl

end Connection

namespace Session

open Services

variable {max : Nat} {config : Config} {p q : Connection × Services}

/-- The same session on alike services that are sane. -/
structure Twins (max : Nat) (p q : Connection × Services) : Prop extends Connection.Twins p q where
  sane : p.2.Sane max
  sane' : q.2.Sane max
  seated : p.1.Seated p.2.ledger

/-- The same answer, and the same session on alike services. -/
def Agreed {α : Type} (x y : Except SessionError α × Connection × Services) : Prop :=
  x.1 = y.1 ∧ x.2.1 = y.2.1 ∧ x.2.2.Alike y.2.2

/-- Twins stay twins when their connections move alike. -/
theorem Twins.moved (h : Twins config.maxAncestorDepth.toNat p q)
    {a : Act (Connection × Services) TxnError Txn} (hm : Act.Keeps (Connection.Shifts config) a)
    (ha : Act.Agrees Connection.Twins a a) :
    (a.exec p).1 = (a.exec q).1 ∧
      Twins config.maxAncestorDepth.toNat (a.exec p).2 (a.exec q).2 := by
  have hseated' : q.1.Seated q.2.ledger := h.connection ▸ h.seated.of_txns h.services.txns.symm
  obtain ⟨he, ht⟩ := ha p q h.toTwins
  have hp := (hm p).moves h.sane.sound h.seated
  have hq := (hm q).moves h.sane'.sound hseated'
  exact ⟨he, ht, h.sane.moved h.seated hp, h.sane'.moved hseated' hq, hp.seated⟩

/-- What was stored on alike services is alike. -/
theorem stored_alike {s t : Services} (h : s.Alike t) (key : Key) (value : Option Bytes)
    (writer : TxnId) (switch switch' : Switch) :
    (s.withRows { stored s.rows key value writer with switch }).Alike
      (t.withRows { stored t.rows key value writer with switch := switch' }) := by
  unfold stored
  rw [← h.locks, ← h.poisoned]
  dsimp only
  split
  · refine ⟨h.clock, h.txns, ?_, rfl, rfl⟩
    dsimp only [withRows]
    split
    · exact h.versions
    · rw [List.map_cons, List.map_cons, h.versions]
  · exact ⟨h.clock, h.txns, h.versions, rfl, rfl⟩

section

variable (queue queue' : Option Nat) (b : Bool)

theorem write_agrees (h : Twins config.maxAncestorDepth.toNat p q) (table : Table) (key : Key)
    (value : Option Bytes) :
    Agreed ((write ⟨config, queue⟩ table key value).exec p)
      ((write ⟨{ config with readResolution := b }, queue'⟩ table key value).exec q) := by
  obtain ⟨he, ht⟩ := h.moved (Connection.elevate_shifts config table)
    (Connection.elevate_agrees config table)
  have hx : ∀ {queue : Option Nat} {b : Bool} (p : Connection × Services),
      (write ⟨{ config with readResolution := b }, queue⟩ table key value).exec p =
        match (Connection.elevate config table).exec p with
        | (.ok leaf, p') => (store key value leaf.id).exec p'
        | (.error e, p') => (.error (.txn e), p') := by
    intro queue b p
    rw [write_eq, Connection.elevate_caching, Act.exec_bind, onConnection, Act.exec_wrap]
    rcases (Connection.elevate config table).exec p with ⟨e | leaf, p'⟩ <;> rfl
  change Agreed ((write ⟨{ config with readResolution := config.readResolution }, queue⟩
    table key value).exec p) _
  rw [hx, hx]
  rcases hp : (Connection.elevate config table).exec p with ⟨e | leaf, p'⟩ <;>
    rcases hq : (Connection.elevate config table).exec q with ⟨e' | leaf', q'⟩ <;>
    rw [hp, hq] at he ht <;> cases he
  · exact ⟨rfl, ht.connection, ht.services.toAlike⟩
  · obtain ⟨sw, _, hs⟩ := exec_store ht.sane.rowsUp key value leaf.id
    obtain ⟨sw', _, hs'⟩ := exec_store ht.sane'.rowsUp key value leaf.id
    dsimp only
    rw [hs, hs', ← ht.services.locks, ← ht.services.poisoned]
    exact ⟨rfl, ht.connection, stored_alike ht.services.toAlike key value leaf.id sw sw'⟩

/-- A read begins the transaction alike, and then shows alike what alike services hold. -/
theorem withFilter_agrees {α : Type} {a : Act (SnapshotFilter × Services) TxnError α}
    (h : Twins config.maxAncestorDepth.toNat p q)
    (ha : ∀ reader p' q', (Connection.activeTxn config).exec p = (.ok reader, p') →
      (Connection.activeTxn config).exec q = (.ok reader, q') →
      Twins config.maxAncestorDepth.toNat p' q' →
      Agreed ((withFilter ⟨config, queue⟩ a).exec p)
        ((withFilter ⟨{ config with readResolution := b }, queue'⟩ a).exec q)) :
    Agreed ((withFilter ⟨config, queue⟩ a).exec p)
      ((withFilter ⟨{ config with readResolution := b }, queue'⟩ a).exec q) := by
  obtain ⟨he, ht⟩ := h.moved (Connection.activeTxn_shifts config)
    (Connection.activeTxn_agrees config)
  rcases hp : (Connection.activeTxn config).exec p with ⟨e | reader, p'⟩ <;>
    rcases hq : (Connection.activeTxn config).exec q with ⟨e' | reader', q'⟩ <;>
    rw [hp, hq] at he ht <;> cases he
  · rw [exec_withFilter_error ⟨config, queue⟩ hp,
      exec_withFilter_error ⟨{ config with readResolution := b }, queue'⟩ hq]
    exact ⟨rfl, ht.connection, ht.services.toAlike⟩
  · exact ha reader p' q' hp hq ht

theorem get_agrees (h : Twins config.maxAncestorDepth.toNat p q) (key : Key) :
    Agreed ((get ⟨config, queue⟩ key).exec p)
      ((get ⟨{ config with readResolution := b }, queue'⟩ key).exec q) := by
  refine withFilter_agrees queue queue' b h fun reader p' q' hp hq ht => ?_
  have hseated : q'.1.Seated q'.2.ledger := ht.connection ▸ ht.seated.of_txns ht.services.txns.symm
  obtain ⟨s, hs, ha, _⟩ := exec_get ⟨config, queue⟩ hp ht.sane ht.seated key
  obtain ⟨s', hs', ha', _⟩ :=
    exec_get ⟨{ config with readResolution := b }, queue'⟩ hq ht.sane' hseated key
  rw [get] at hs hs'
  rw [hs, hs', ← ht.services.poisoned, ht.services.toAlike.get_eq]
  exact ⟨rfl, ht.connection, ha.symm.trans (ht.services.toAlike.trans ha')⟩

theorem scan_agrees (h : Twins config.maxAncestorDepth.toNat p q) (start : Key)
    (stop : Option Key) :
    Agreed ((scan ⟨config, queue⟩ start stop).exec p)
      ((scan ⟨{ config with readResolution := b }, queue'⟩ start stop).exec q) := by
  refine withFilter_agrees queue queue' b h fun reader p' q' hp hq ht => ?_
  have hseated : q'.1.Seated q'.2.ledger := ht.connection ▸ ht.seated.of_txns ht.services.txns.symm
  obtain ⟨s, hs, ha, _⟩ := exec_scan ⟨config, queue⟩ hp ht.sane ht.seated start stop
  obtain ⟨s', hs', ha', _⟩ :=
    exec_scan ⟨{ config with readResolution := b }, queue'⟩ hq ht.sane' hseated start stop
  have hinv := ht.services.inverted_iff start stop
  rw [scan] at hs hs'
  rw [hs, hs', ← ht.services.poisoned, ht.services.toAlike.scan_eq]
  simp only [hinv]
  refine ⟨rfl, ht.connection, ha.symm.trans (.trans ?_ ha')⟩
  refine ⟨ht.services.clock, ht.services.txns, ht.services.versions, ?_, ht.services.locks⟩
  simp only [withRows, ht.services.poisoned, hinv]

/-- A call answers alike on alike services, whether or not outcomes are cached. -/
theorem Call.run_agrees (h : Twins config.maxAncestorDepth.toNat p q) (c : Call) :
    Agreed ((c.run ⟨config, queue⟩).exec p)
      ((c.run ⟨{ config with readResolution := b }, queue'⟩).exec q) := by
  have hmap : ∀ {α : Type} {x y : Act (Connection × Services) SessionError α} (f : α → Answer),
      Agreed (x.exec p) (y.exec q) → Agreed ((f <$> x).exec p) ((f <$> y).exec q) := by
    intro α x y f hxy
    rw [Act.exec_map, Act.exec_map, hxy.1]
    exact ⟨rfl, hxy.2⟩
  have hconn : ∀ {α : Type} {a : Act (Connection × Services) TxnError α} (f : α → Answer),
      Act.Agrees Connection.Twins a a →
      Agreed ((f <$> onConnection a).exec p) ((f <$> onConnection a).exec q) := by
    intro α a f ha
    obtain ⟨he, hc, hs⟩ := (ha.wrap SessionError.txn) p q h.toTwins
    exact hmap f ⟨he, hc, hs.toAlike⟩
  cases c with
  | begin => exact hconn _ (Connection.activeTxn_agrees config)
  | put table key value => exact hmap _ (write_agrees queue queue' b h table key (some value))
  | delete table key => exact hmap _ (write_agrees queue queue' b h table key none)
  | get key => exact hmap _ (get_agrees queue queue' b h key)
  | scan start stop => exact hmap _ (scan_agrees queue queue' b h start stop)
  | savepoint name => exact hconn _ (Connection.setSavepoint_agrees config name)
  | release name => exact hconn _ (Connection.releaseSavepoint_agrees config name)
  | rollbackTo name => exact hconn _ (Connection.rollbackTo_agrees config name)
  | commit => exact hconn _ (Connection.commit_agrees config)
  | abort => exact hconn _ Connection.abort_agrees
  | close => exact hconn _ Connection.close_agrees

end

end Session

/-! ## Runs -/

namespace Database

namespace State

variable {max : Nat} {w w' : State}

/-- Orderly databases with the same sessions, on alike services. -/
structure Twins (max : Nat) (w w' : State) : Prop where
  orderly : w.Orderly max
  orderly' : w'.Orderly max
  sessions : w.sessions = w'.sessions
  alike : w.services.Alike w'.services

section

variable (config : Config) (queue queue' : Option Nat) (b : Bool)

theorem Twins.call (h : Twins config.maxAncestorDepth.toNat w w') (i : Nat) (c : Session.Call) :
    (w.call ⟨config, queue⟩ i c).1 =
        (w'.call ⟨{ config with readResolution := b }, queue'⟩ i c).1 ∧
      Twins config.maxAncestorDepth.toNat (w.call ⟨config, queue⟩ i c).2
        (w'.call ⟨{ config with readResolution := b }, queue'⟩ i c).2 := by
  have ht : Session.Twins config.maxAncestorDepth.toNat (w.sessions i, w.services)
      (w'.sessions i, w'.services) :=
    ⟨⟨congrFun h.sessions i, h.alike, h.orderly.sane.ledgerUp, h.orderly'.sane.ledgerUp⟩,
      h.orderly.sane, h.orderly'.sane, h.orderly.seated i⟩
  obtain ⟨he, hc, hs⟩ := c.run_agrees queue queue' b ht
  refine ⟨he, h.orderly.call ⟨config, queue⟩ i c,
    h.orderly'.call ⟨{ config with readResolution := b }, queue'⟩ i c, ?_, hs⟩
  dsimp only [State.call, State.put, State.view]
  rw [hc, h.sessions]

/-- The writers of resolutions may run on either side. -/
theorem Twins.onServices (h : Twins max w w') {a a' : Act Services Empty Unit}
    (ha : Act.Keeps (Services.Marked max) a) (ha' : Act.Keeps (Services.Marked max) a') :
    Twins max (w.onServices a) (w'.onServices a') := by
  obtain ⟨_, _, hs⟩ := ha w.services h.orderly.sane
  obtain ⟨_, _, hs'⟩ := ha' w'.services h.orderly'.sane
  exact ⟨h.orderly.onServices ha, h.orderly'.onServices ha', h.sessions,
    hs.symm.trans (h.alike.trans hs')⟩

theorem Twins.run (h : Twins config.maxAncestorDepth.toNat w w') (es : List Event) :
    (w.run ⟨config, queue⟩ es).1 =
        (w'.run ⟨{ config with readResolution := b }, queue'⟩ es).1 ∧
      Twins config.maxAncestorDepth.toNat (w.run ⟨config, queue⟩ es).2
        (w'.run ⟨{ config with readResolution := b }, queue'⟩ es).2 := by
  induction es generalizing w w' with
  | nil => exact ⟨rfl, h⟩
  | cons e es ih =>
    cases e with
    | call i c =>
      obtain ⟨he, ht⟩ := h.call config queue queue' b i c
      obtain ⟨hes, ht'⟩ := ih ht
      exact ⟨congrArg₂ List.cons he hes, ht'⟩
    | drain =>
      exact ih (h.onServices (Services.runWriters_marked _) (Services.runWriters_marked _))
    | shutdown => exact ih (h.onServices (shutdown_marked _ _) (shutdown_marked _ _))

end

/-- Caching outcomes is transparent: opened on the same fresh services with and without it, a
database gives every call of every run the same answer and leaves the sessions the same, wherever
the writers of resolutions run or are shut down in between. -/
theorem run_transparent (config : Config) {db db' : Database} {s t t' : Services} (hs : s.Fresh)
    (h : (start { config with readResolution := true }).exec s = (.ok db, t))
    (h' : (start { config with readResolution := false }).exec s = (.ok db', t'))
    (names : Nat → String) (es : List Event) :
    ((opened db names t).run db es).1 = ((opened db' names t').run db' es).1 ∧
      ((opened db names t).run db es).2.sessions =
        ((opened db' names t').run db' es).2.sessions := by
  obtain ⟨hc, hf, ha⟩ := start_ok h hs
  obtain ⟨hc', hf', ha'⟩ := start_ok h' hs
  obtain ⟨c, queue⟩ := db
  obtain ⟨c', queue'⟩ := db'
  dsimp only at hc hc'
  subst hc hc'
  have ht : Twins config.maxAncestorDepth.toNat
      (opened ⟨{ config with readResolution := true }, queue⟩ names t)
      (opened ⟨{ config with readResolution := false }, queue'⟩ names t') :=
    ⟨opened_orderly _ _ hf _, opened_orderly _ _ hf' _, rfl, ha.symm.trans ha'⟩
  obtain ⟨he, ht'⟩ := ht.run { config with readResolution := true } queue queue' false es
  exact ⟨he, ht'.sessions⟩

/-- A read finds an outcome, which is written back before the next read. -/
def cachedEvents : List Event :=
  [.call 0 (.put "t" [1] [2]), .call 0 .commit, .call 1 (.get [1]), .drain, .call 2 (.get [1]),
    .shutdown, .call 2 (.put "t" [1] [3]), .call 1 (.get [1])]

/-- The answers with a marker are those without one. -/
theorem run_transparent_cached :
    ∃ db db' t t', (start {}).exec {} = (.ok db, t) ∧
      (start { readResolution := false }).exec {} = (.ok db', t') ∧
      (((opened db toString t).run db cachedEvents).2.services.rows.versions.map
        (·.resolution)) = [none, some (.committed 2)] ∧
      ((opened db' toString t').run db' cachedEvents).1 =
        [.ok .done, .ok (.timestamp (some 2)), .ok (.value (some [2])), .ok (.value (some [2])),
          .ok .done, .ok (.value (some [2]))] ∧
      ((opened db toString t).run db cachedEvents).1 =
        ((opened db' toString t').run db' cachedEvents).1 :=
  ⟨_, _, _, _, rfl, rfl, rfl, rfl,
    (run_transparent {} Services.fresh_default rfl rfl toString cachedEvents).1⟩

end State

end Database

end NestedTxn
