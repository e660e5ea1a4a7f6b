import NestedTxn.Proofs.Resolver.Marking
import NestedTxn.Proofs.Session.Effects

/-!
# Every event keeps a database orderly

* `Session.Proceeds p p'`: a call of a seated session on sane services moves its connection, and
  leaves sane services. Every call does (`Session.Call.run_proceeds`), whatever it answers.
* `Database.State.Orderly.put`, `call`, `run`: what one session does keeps all sessions seated and
  apart, and so does a run.
* `Services.Fresh`, `Database.State.opened_orderly`: a database that is opened on fresh services is
  orderly.
-/

namespace NestedTxn

namespace Session

open Services

variable {max : Nat}

/-- What a call of a seated session does. -/
structure Proceeded (max : Nat) (p p' : Connection × Services) : Prop where
  sane : p'.2.Sane max
  moved : ∃ s, Connection.Moved max p (p'.1, s) ∧ p'.2.ledger.txns = s.ledger.txns

/-- A seated session on sane services proceeds. -/
def Proceeds (max : Nat) (p p' : Connection × Services) : Prop :=
  p.2.Sane max → p.1.Seated p.2.ledger → Proceeded max p p'

theorem proceeds_of_moves {p p' : Connection × Services} (h : Connection.Moves max p p') :
    Proceeds max p p' := by
  intro hs hc
  have hm := h hs.sound hc
  exact ⟨hs.moved hc hm, p'.2, hm, rfl⟩

/-- After a move of the connection the rows may change. -/
theorem Proceeded.of_moved {p q p' : Connection × Services} (h : Connection.Moved max p q)
    (hc : p'.1 = q.1) (ht : p'.2.ledger.txns = q.2.ledger.txns) (hs : p'.2.Sane max) :
    Proceeded max p p' :=
  ⟨hs, q.2, hc ▸ h, ht⟩

/-- Every call of a seated session proceeds. -/
theorem Call.run_proceeds (db : Database) (c : Call) :
    Act.Keeps (Proceeds db.config.maxAncestorDepth.toNat) (c.run db) := by
  intro p hs hc
  have heff := c.run_effect db hs hc
  exact .of_moved ((c.connects_changes db.config p).moves hs.sound hc) heff.connection heff.txns
    heff.sane

end Session

namespace Connection

theorem Seated.of_txns {c : Connection} {l l' : Ledger} (h : c.Seated l) (ht : l'.txns = l.txns) :
    c.Seated l' :=
  ⟨h.idle, h.stacked.keep fun _ _ t hf => ⟨t, by rw [Ledger.find?_congr ht, hf], rfl⟩⟩

/-- A connection that shares no entry with another one does not notice its calls. -/
theorem Seated.moved {max : Nat} {c d d' : Connection} {s s' : Services}
    (h : c.Seated s.ledger) (hm : Moved max (d, s) (d', s')) (ha : ∀ id ∈ c.ids, id ∉ d.ids) :
    c.Seated s'.ledger :=
  ⟨h.idle, h.stacked.keep fun _ he => hm.others _ (ha _ (List.mem_map_of_mem he))⟩

/-- What is newly on a stack is not on the stack of another connection. -/
theorem Seated.apart_moved {max : Nat} {c d d' : Connection} {s s' : Services}
    (h : c.Seated s.ledger) (hm : Moved max (d, s) (d', s')) (ha : ∀ id ∈ c.ids, id ∉ d.ids) :
    ∀ id ∈ c.ids, id ∉ d'.ids := by
  intro id hid hid'
  rcases hm.fresh id hid' with hp | hn
  · exact ha id hid hp
  · obtain ⟨e, he, rfl⟩ := List.mem_map.1 hid
    obtain ⟨t, ht, _⟩ := h.stacked.find? he
    rw [ht] at hn
    cases hn

end Connection

namespace Database

namespace State

variable {w : State} {max : Nat}

/-- When one session proceeds, all of them stay seated and apart. -/
theorem Orderly.put (h : w.Orderly max) (i : Nat) {p : Connection × Services}
    (hp : Session.Proceeded max (w.view i) p) : (w.put i p).Orderly max := by
  obtain ⟨hsane, s, hm, ht⟩ := hp
  have hne : ∀ j, j ≠ i → ∀ id ∈ (w.sessions j).ids, id ∉ (w.sessions i).ids :=
    fun j hj => h.apart j i hj
  have hfresh : ∀ j, j ≠ i → ∀ id ∈ (w.sessions j).ids, id ∉ p.1.ids :=
    fun j hj => (h.seated j).apart_moved hm (hne j hj)
  refine ⟨hsane, fun j => ?_, fun j k hjk id hid hid' => ?_⟩
  · dsimp only [State.put]
    by_cases hj : j = i
    · rw [hj, Function.update_self]
      exact hm.seated.of_txns ht
    · rw [Function.update_of_ne hj]
      exact ((h.seated j).moved hm (hne j hj)).of_txns ht
  · dsimp only [State.put] at hid hid'
    by_cases hj : j = i
    · have hk : k ≠ i := fun hk => hjk (hj.trans hk.symm)
      rw [hj, Function.update_self] at hid
      rw [Function.update_of_ne hk] at hid'
      exact hfresh k hk id hid' hid
    · rw [Function.update_of_ne hj] at hid
      by_cases hk : k = i
      · rw [hk, Function.update_self] at hid'
        exact hfresh j hj id hid hid'
      · rw [Function.update_of_ne hk] at hid'
        exact h.apart j k hjk id hid hid'

/-- A call of one session keeps all of them seated and apart. -/
theorem Orderly.call (db : Database) (h : w.Orderly db.config.maxAncestorDepth.toNat) (i : Nat)
    (c : Session.Call) : (w.call db i c).2.Orderly db.config.maxAncestorDepth.toNat :=
  h.put i (c.run_proceeds db (w.view i) h.sane (h.seated i))

/-- What only writes markers keeps a database orderly. -/
theorem Orderly.onServices (h : w.Orderly max) {a : Act Services Empty Unit}
    (ha : Act.Keeps (Services.Marked max) a) : (w.onServices a).Orderly max := by
  obtain ⟨hs, ht, _⟩ := ha w.services h.sane
  exact ⟨hs, fun i => (h.seated i).of_txns ht, h.apart⟩

/-- Every run keeps a database orderly. -/
theorem Orderly.run (db : Database) (h : w.Orderly db.config.maxAncestorDepth.toNat)
    (es : List Event) :
    (w.run db es).2.Orderly db.config.maxAncestorDepth.toNat :=
  run_keeps h (fun _ i c _ hw => hw.call db i c)
    (fun _ hw => hw.onServices (Services.runWriters_marked _))
    fun _ hw => hw.onServices (db.shutdown_marked _)

end State

end Database

/-! ## Opening -/

namespace Services

/-- Services whose stores answer, without records, rows and queued notices. -/
structure Fresh (s : Services) : Prop where
  ledgerUp : s.ledger.switch.Up
  rowsUp : s.rows.switch.Up
  txns : s.ledger.txns = []
  versions : s.rows.versions = []
  queued : ∀ q ∈ s.queues, q.pending = []

theorem fresh_default : Fresh {} :=
  ⟨fun _ _ => rfl, fun _ _ => rfl, rfl, rfl, fun _ hq => by cases hq⟩

theorem Fresh.sane {s : Services} (h : s.Fresh) (max : Nat) : s.Sane max where
  sound := Ledger.sound_nil h.txns
  ledgerUp := h.ledgerUp
  rowsUp := h.rowsUp
  versions v hv := by
    rw [h.versions] at hv
    cases hv
  queued q hq n hn := by
    rw [h.queued q hq] at hn
    cases hn

end Services

namespace Database

/-- Opening a database adds an empty queue at most, and reports it. -/
theorem start_eq {config : Config} {db : Database} {s s' : Services}
    (h : (start config).exec s = (.ok db, s')) :
    db.config = config ∧ ∃ new turns log, s' = { s with queues := s.queues ++ new, turns, log } ∧
      ∀ q ∈ new, q.pending = [] := by
  rw [start] at h
  split at h
  · obtain ⟨_, t, ht, h⟩ := Act.exec_bind_eq_ok h
    cases h
    obtain ⟨n, ht, rfl⟩ := Act.exec_map_eq_ok ht
    rw [Services.openQueue] at ht
    split at ht <;> cases ht
    refine ⟨rfl, [{ capacity := config.resolverQueueCapacity }], _, _, rfl, fun q hq => ?_⟩
    rw [List.mem_singleton.1 hq]
    rfl
  · cases h
    exact ⟨rfl, [], s.turns, _, by rw [List.append_nil], fun _ hq => absurd hq List.not_mem_nil⟩

/-- A database that was opened on fresh services leaves them fresh. -/
theorem start_ok {config : Config} {db : Database} {s s' : Services}
    (h : (start config).exec s = (.ok db, s')) (hs : s.Fresh) :
    db.config = config ∧ s'.Fresh ∧ s.Alike s' := by
  obtain ⟨hconfig, new, turns, log, rfl, hnew⟩ := start_eq h
  refine ⟨hconfig, ⟨hs.ledgerUp, hs.rowsUp, hs.txns, hs.versions, fun q hq => ?_⟩,
    ⟨rfl, rfl, rfl, rfl, rfl⟩⟩
  exact (List.mem_append.1 hq).elim (hs.queued q) (hnew q)

/-- A database on fresh services is orderly before any call. -/
theorem State.opened_orderly (db : Database) (names : Nat → String) {s : Services} (hs : s.Fresh)
    (max : Nat) : (opened db names s).Orderly max :=
  ⟨hs.sane max, fun _ => ⟨fun _ => rfl, .nil⟩, fun _ _ _ _ hid => by cases hid⟩

end Database

end NestedTxn
