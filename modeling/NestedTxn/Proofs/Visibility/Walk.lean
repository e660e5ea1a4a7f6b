import NestedTxn.Proofs.Lifecycle.Elevation
import NestedTxn.Visibility.SnapshotFilter

/-!
# Walks of a filter

While the ledger answers, a filter finds the chains that the ledger holds. Where it does not, the
filter finds nothing else: it fails.

* `Services.Reads s s'`: from `s` to `s'` no record, row or reading changed, and every notice that
  was queued tells the effective state of its writer (`Ledger.Resolves`).
* `SnapshotFilter.Browses p p'`: the filter looked things up; its memo still holds records only
  (`SnapshotFilter.Remembers`).
* `Services.Answers s x y`: `y` is the answer `x`, unless the ledger was off at some call.
* `lookUp_answers`, `ancestorsFrom_answers`, `writerChain_answers`: what a walk finds. A chain with
  more ancestors than the filter walks is unresolvable.
* `load_answers`: a filter for a reader holds the chain of the reader.
* `exec_load`: the same while the ledger answers.
-/

namespace NestedTxn

namespace Ledger

/-- The writer `id` has the final outcome `r`. -/
def Resolves (l : Ledger) (id : TxnId) (r : Resolution) : Prop :=
  ∃ c e, l.Chain id c ∧ effectiveState c = .ok e ∧ e.resolution? = some r

theorem Chain.of_txns {l l' : Ledger} {id : TxnId} {c : List Txn} (h : l.Chain id c)
    (he : l'.txns = l.txns) : l'.Chain id c :=
  h.of_find? fun _ _ ht => by rw [find?_congr he, ht]

theorem Resolves.of_txns {l l' : Ledger} {id : TxnId} {r : Resolution} (h : l.Resolves id r)
    (he : l'.txns = l.txns) : l'.Resolves id r := by
  obtain ⟨c, e, hc, hs⟩ := h
  exact ⟨c, e, hc.of_txns he, hs⟩

end Ledger

namespace Services

/-- From `s` to `s'` something was read, and outcomes of writers were queued. -/
structure Reads (s s' : Services) : Prop where
  rows : s'.rows = s.rows
  clock : s'.clock = s.clock
  txns : s'.ledger.txns = s.ledger.txns
  up : s.ledger.switch.Up → s'.ledger.switch.Up
  /-- What was queued is true. -/
  queues : ∀ q ∈ s'.queues, ∀ n ∈ q.pending,
    (∃ q₀ ∈ s.queues, n ∈ q₀.pending) ∨ s.ledger.Resolves n.writer n.resolution

theorem Looks.reads {s s' : Services} (h : s.Looks s') : s.Reads s' :=
  ⟨h.rows, h.clock, h.txns, h.up, fun q hq _ hn => .inl ⟨q, h.queues ▸ hq, hn⟩⟩

theorem Reads.refl (s : Services) : s.Reads s := (Looks.refl s).reads

theorem Reads.trans {s s' s'' : Services} (h : s.Reads s') (h' : s'.Reads s'') : s.Reads s'' where
  rows := h'.rows.trans h.rows
  clock := h'.clock.trans h.clock
  txns := h'.txns.trans h.txns
  up hu := h'.up (h.up hu)
  queues q hq _ hn := by
    rcases h'.queues q hq _ hn with ⟨q₀, hq₀, hn⟩ | hr
    · exact h.queues q₀ hq₀ _ hn
    · exact .inr (hr.of_txns h.txns.symm)

/-- The answer is `x`, or the ledger was off at some call. -/
def Answers {α : Type} (s : Services) (x y : Except TxnError α) : Prop :=
  y = x ∨ y = .error (.unavailable .ledger) ∧ ¬ s.ledger.switch.Up

section

variable {α β : Type} {s s' : Services} {x y : Except TxnError α}

theorem Answers.refl (s : Services) (x : Except TxnError α) : s.Answers x x := .inl rfl

/-- While the ledger answers, so does the call. -/
theorem Answers.eq (h : s.Answers x y) (hup : s.ledger.switch.Up) : y = x :=
  h.resolve_right fun h => h.2 hup

/-- A ledger that is off later was not going to answer all calls before. -/
theorem Answers.before (h : s'.Answers x y) (hr : s.Reads s') : s.Answers x y :=
  h.imp_right fun h => ⟨h.1, fun hup => h.2 (hr.up hup)⟩

theorem Answers.map (h : s.Answers x y) (f : α → β) : s.Answers (x.map f) (y.map f) := by
  rcases h with rfl | ⟨rfl, hoff⟩
  · exact .refl _ _
  · exact .inr ⟨rfl, hoff⟩

theorem fetch_answers (s : Services) (id : TxnId) :
    ∃ y, (onLedger (Ledger.fetch id)).exec s = (y, s.withLedger s.nextLedger) ∧
      s.Answers (.ok (s.ledger.find? id)) y := by
  rw [exec_onLedger, Ledger.exec_fetch]
  split
  · exact ⟨_, rfl, .refl _ _⟩
  · next hoff => exact ⟨_, rfl, .inr ⟨rfl, fun hup => hoff hup.on_advance⟩⟩

end

/-- While the ledger answers, a record is fetched. -/
theorem exec_fetch_up {s : Services} (h : s.ledger.switch.Up) (id : TxnId) :
    (onLedger (Ledger.fetch id)).exec s = (.ok (s.ledger.find? id), s.withLedger s.nextLedger) := by
  have hon : s.nextLedger.switch.on = true := h.on_advance
  rw [exec_onLedger, Ledger.exec_fetch, if_pos hon, nextLedger_find?]

end Services

namespace SnapshotFilter

open Services

/-- The memo holds records of `l`. -/
def Remembers (f : SnapshotFilter) (l : Ledger) : Prop :=
  ∀ t ∈ f.memo, l.find? t.id = some t

theorem Remembers.of_txns {f : SnapshotFilter} {l l' : Ledger} (h : f.Remembers l)
    (he : l'.txns = l.txns) : f.Remembers l' :=
  fun t ht => by rw [Ledger.find?_congr he, h t ht]

/-- A filter that looked things up. -/
structure Browses (p p' : SnapshotFilter × Services) : Prop where
  /-- Reader, ancestors and limits are fixed. -/
  filter : p'.1 = { p.1 with memo := p'.1.memo, noted := p'.1.noted }
  reads : p.2.Reads p'.2
  remembers : p.1.Remembers p.2.ledger → p'.1.Remembers p'.2.ledger

theorem Browses.refl (p : SnapshotFilter × Services) : Browses p p := ⟨rfl, .refl _, id⟩

theorem Browses.trans {p p' p'' : SnapshotFilter × Services} (h : Browses p p')
    (h' : Browses p' p'') : Browses p p'' :=
  ⟨by rw [h'.filter, h.filter], h.reads.trans h'.reads, fun hr => h'.remembers (h.remembers hr)⟩

theorem Browses.maxDepth {p p' : SnapshotFilter × Services} (h : Browses p p') :
    p'.1.maxDepth = p.1.maxDepth := by
  rw [h.filter]

variable {f : SnapshotFilter} {s : Services}

/-- The memo and the ledger agree, so that a look-up finds the record. -/
theorem lookUp_answers (hr : f.Remembers s.ledger) (id : TxnId) :
    ∃ y p, (lookUp id).exec (f, s) = (y, p) ∧ Browses (f, s) p ∧
      s.Answers (.ok (s.ledger.find? id)) y := by
  cases hm : f.memo.find? (·.id = id) with
  | some t =>
    refine ⟨.ok (some t), (f, s), ?_, .refl _, ?_⟩
    · simp [lookUp, Act.exec_bind, hm]
    · have hid : t.id = id := by simpa using List.find?_some hm
      rw [← hid, hr t (List.mem_of_find?_eq_some hm)]
      exact .refl _ _
  | none =>
    have hs := (looks_called s).reads
    have hr' : f.Remembers (s.withLedger s.nextLedger).ledger := hr.of_txns hs.txns
    obtain ⟨y, hy, hyx | ⟨rfl, hoff⟩⟩ := fetch_answers s id
    · cases hf : s.ledger.find? id with
      | none =>
        rw [hf] at hyx
        refine ⟨.ok none, (f, s.withLedger s.nextLedger), ?_, ⟨rfl, hs, fun _ => hr'⟩, .refl _ _⟩
        simp [lookUp, Act.exec_bind, hm, hy, hyx]
      | some t =>
        rw [hf] at hyx
        cases ht : t.state.isTerminal with
        | false =>
          refine ⟨.ok (some t), (f, s.withLedger s.nextLedger), ?_, ⟨rfl, hs, fun _ => hr'⟩,
            .refl _ _⟩
          simp [lookUp, Act.exec_bind, hm, hy, hyx, ht]
        | true =>
          refine ⟨.ok (some t), ({ f with memo := t :: f.memo }, s.withLedger s.nextLedger), ?_,
            ⟨rfl, hs, fun _ u hu => ?_⟩, .refl _ _⟩
          · simp [lookUp, Act.exec_bind, Act.exec_map, Except.map, hm, hy, hyx, ht]
          · rcases List.mem_cons.1 hu with rfl | hu
            · change s.ledger.find? u.id = some u
              rw [Ledger.id_of_find? hf, hf]
            · exact hr' u hu
    · refine ⟨.error (.unavailable .ledger), (f, s.withLedger s.nextLedger), ?_,
        ⟨rfl, hs, fun _ => hr'⟩, .inr ⟨rfl, hoff⟩⟩
      simp [lookUp, Act.exec_bind, hm, hy]

/-- The walk finds the ancestors of the head of a chain, unless there are too many. -/
theorem ancestorsFrom_answers (budget : Nat) {seen : List TxnId} {id : TxnId} {t : Txn}
    {c : List Txn} (hc : s.ledger.Chain id (t :: c)) (hseen : ∀ x ∈ seen, x ∉ Ledger.ids c)
    (hr : f.Remembers s.ledger) :
    ∃ x y p, (ancestorsFrom budget seen t.parent).exec (f, s) = (y, p) ∧ Browses (f, s) p ∧
      s.Answers x y ∧
      (c.length ≤ budget ∧ x = .ok c ∨
        budget < c.length ∧ ∃ fault, x = .error (.unresolvable fault)) := by
  induction budget generalizing seen id t c f s with
  | zero =>
    cases c with
    | nil =>
      rw [hc.parent_eq_none]
      exact ⟨_, _, _, rfl, .refl _, .refl _ _, .inl ⟨Nat.le_refl _, rfl⟩⟩
    | cons u c =>
      rw [hc.parent_eq]
      exact ⟨_, _, _, rfl, .refl _, .refl _ _, .inr ⟨Nat.succ_pos _, _, rfl⟩⟩
  | succ budget ih =>
    cases c with
    | nil =>
      rw [hc.parent_eq_none]
      exact ⟨_, _, _, rfl, .refl _, .refl _ _, .inl ⟨Nat.zero_le _, rfl⟩⟩
    | cons u c =>
      have hcu := hc.tail hc.parent_eq
      have hfresh : u.id ∉ seen := fun h => hseen u.id h (by simp)
      -- the rest of the chain repeats neither `u` nor what was seen before
      have hseen' : ∀ x ∈ u.id :: seen, x ∉ Ledger.ids c := by
        intro x hx
        rcases List.mem_cons.1 hx with rfl | hx
        · exact (List.nodup_cons.1 hcu.nodup).1
        · exact fun h => hseen x hx (List.mem_cons_of_mem _ h)
      obtain ⟨y, p, hp, hb, hy⟩ := lookUp_answers hr u.id
      obtain ⟨x', y', p', hw, hb', hy', hx'⟩ := ih (f := p.1) (s := p.2)
        (hcu.of_txns hb.reads.txns) hseen' (hb.remembers hr)
      have hx : c.length + 1 ≤ budget + 1 ∧ x'.map (u :: ·) = .ok (u :: c) ∨
          budget + 1 < c.length + 1 ∧ ∃ fault, x'.map (u :: ·) = .error (.unresolvable fault) := by
        rcases hx' with ⟨hlen, rfl⟩ | ⟨hlen, fault, rfl⟩
        · exact .inl ⟨by omega, rfl⟩
        · exact .inr ⟨by omega, fault, rfl⟩
      rw [hc.parent_eq, ancestorsFrom, if_neg hfresh]
      rcases hy with rfl | ⟨rfl, hoff⟩
      · rw [hcu.find?_head] at hp
        refine ⟨_, y'.map (u :: ·), p', ?_, hb.trans hb', (hy'.before hb.reads).map _, hx⟩
        rw [Act.exec_bind_ok hp]
        simp [Act.exec_map, hw]
      · exact ⟨_, _, p, Act.exec_bind_error hp, hb, .inr ⟨rfl, hoff⟩, hx⟩

/-- A filter walks the chain of a recorded writer, unless it has too many ancestors. -/
theorem writerChain_answers {id : TxnId} {c : List Txn} (hc : s.ledger.Chain id c)
    (hr : f.Remembers s.ledger) :
    ∃ x y p, (writerChain id).exec (f, s) = (y, p) ∧ Browses (f, s) p ∧ s.Answers x y ∧
      (c.length ≤ f.maxDepth + 1 ∧ x = .ok c ∨
        f.maxDepth + 1 < c.length ∧ ∃ fault, x = .error (.unresolvable fault)) := by
  obtain ⟨t, rest, rfl, ht⟩ := hc.eq_cons
  have hseen : ∀ x ∈ [t.id], x ∉ Ledger.ids rest := by
    intro x hx
    rw [List.mem_singleton.1 hx]
    exact (List.nodup_cons.1 hc.nodup).1
  obtain ⟨y, p, hp, hb, hy⟩ := lookUp_answers hr id
  obtain ⟨x', y', p', hw, hb', hy', hx'⟩ := ancestorsFrom_answers (f := p.1) (s := p.2) f.maxDepth
    (hc.of_txns hb.reads.txns) hseen (hb.remembers hr)
  have hx : rest.length + 1 ≤ f.maxDepth + 1 ∧ x'.map (t :: ·) = .ok (t :: rest) ∨
      f.maxDepth + 1 < rest.length + 1 ∧
        ∃ fault, x'.map (t :: ·) = .error (.unresolvable fault) := by
    rcases hx' with ⟨hlen, rfl⟩ | ⟨hlen, fault, rfl⟩
    · exact .inl ⟨by omega, rfl⟩
    · exact .inr ⟨by omega, fault, rfl⟩
  rw [writerChain]
  rcases hy with rfl | ⟨rfl, hoff⟩
  · rw [ht] at hp
    refine ⟨_, y'.map (t :: ·), p', ?_, hb.trans hb', (hy'.before hb.reads).map _, hx⟩
    rw [Act.exec_bind_ok hp]
    simp [ancestorsOf, Act.exec_bind, Act.exec_map, hb.maxDepth, hw]
  · exact ⟨_, _, p, Act.exec_bind_error hp, hb, .inr ⟨rfl, hoff⟩, hx⟩

/-- A fresh filter for a reader holds the ancestors of the reader and looked nothing else up. -/
theorem load_answers {reader t : Txn} {c : List Txn} (sink : Option Sink) (maxDepth : Nat)
    (hc : s.ledger.Chain t.id (t :: c)) (hid : reader.id = t.id) (hp : reader.parent = t.parent) :
    ∃ f x y s', s.Reads s' ∧ f.Remembers s'.ledger ∧
      f = { reader, ancestors := c, sink, maxDepth, memo := f.memo, noted := f.noted } ∧
      (load reader sink maxDepth).exec s = (y, s') ∧ s.Answers x y ∧
      (c.length ≤ maxDepth ∧ x = .ok f ∨
        maxDepth < c.length ∧ ∃ fault, x = .error (.malformedAncestry fault)) := by
  have hseen : ∀ x ∈ [reader.id], x ∉ Ledger.ids c := by
    intro x hx
    rw [List.mem_singleton.1 hx, hid]
    exact (List.nodup_cons.1 hc.nodup).1
  obtain ⟨x, y, p, hw, hb, hy, hx⟩ := ancestorsFrom_answers (f := { reader, sink, maxDepth })
    (s := s) maxDepth hc hseen fun t ht => by cases ht
  have hr := hb.remembers fun t ht => by cases ht
  rw [← hp] at hw
  have hload : (load reader sink maxDepth).exec s =
      ((y.mapError readerFault).map fun a => { p.1 with ancestors := a }, p.2) := by
    cases y <;> simp [load, ancestorsOf, Act.exec_bind, Act.exec_map, hw, Except.map]
  refine ⟨{ p.1 with ancestors := c }, (x.mapError readerFault).map fun a =>
    { p.1 with ancestors := a }, _, p.2, hb.reads, hr, by rw [hb.filter], hload, ?_, ?_⟩
  · rcases hy with rfl | ⟨rfl, hoff⟩
    · exact .refl _ _
    · exact .inr ⟨rfl, hoff⟩
  · rcases hx with ⟨hlen, rfl⟩ | ⟨hlen, fault, rfl⟩
    · exact .inl ⟨hlen, rfl⟩
    · exact .inr ⟨hlen, fault, rfl⟩

theorem exec_load {reader t : Txn} {c : List Txn} (sink : Option Sink) (maxDepth : Nat)
    (hc : s.ledger.Chain t.id (t :: c)) (hid : reader.id = t.id) (hp : reader.parent = t.parent)
    (hup : s.ledger.switch.Up) :
    ∃ f s', s.Reads s' ∧ f.Remembers s'.ledger ∧
      f = { reader, ancestors := c, sink, maxDepth, memo := f.memo, noted := f.noted } ∧
      (c.length ≤ maxDepth ∧ (load reader sink maxDepth).exec s = (.ok f, s') ∨
        maxDepth < c.length ∧ ∃ fault,
          (load reader sink maxDepth).exec s = (.error (.malformedAncestry fault), s')) := by
  obtain ⟨f, x, y, s', hreads, hrem, hf, hl, hy, hx⟩ := load_answers sink maxDepth hc hid hp
  rw [hy.eq hup] at hl
  refine ⟨f, s', hreads, hrem, hf, ?_⟩
  rcases hx with ⟨hlen, rfl⟩ | ⟨hlen, fault, rfl⟩
  · exact .inl ⟨hlen, hl⟩
  · exact .inr ⟨hlen, fault, hl⟩

end SnapshotFilter

end NestedTxn
