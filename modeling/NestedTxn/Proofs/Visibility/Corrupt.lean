import NestedTxn.Proofs.Ledger.Ancestry
import NestedTxn.Proofs.Visibility.Marker
import NestedTxn.Proofs.Visibility.Memo
import NestedTxn.Proofs.Visibility.Scans

/-!
# Reads of a corrupt record

Whatever the ledger holds, cycles, transactions that are their own parents, parents that are not
recorded, chains without an end, commits without a timestamp: while it answers, reads come to an end
and do not fail.

* `SnapshotFilter.Asks depth n a`: a filter that walks at most `depth` ancestors asks the ledger at
  most `n` times in `a`. So many look-ups are needed for a chain (`writerChain_asks`), a version
  (`classify_asks`) and a list of versions (`firstVisible_asks`, `visibleRows_asks`).
* `SnapshotFilter.known`: the records that a filter finds, in its memo or in the ledger. What a walk
  finds is a chain of them (`chain_of_chainOf`), and what is in sight has such a chain
  (`sight_visible`).
* `SnapshotFilter.exec_load_any`: a filter is made, or the chain of its reader is malformed.
* `SnapshotFilter.Unfailing`: what can be relied on whatever is recorded. While the ledger answers,
  it holds (`SnapshotFilter.reads_unfailing`).
-/

namespace NestedTxn

/-- A record whose walk comes to a root has a chain. -/
theorem Ledger.Above.chain {l : Ledger} {id : TxnId} {t : Txn} {c : List Txn}
    (h : l.Above t.parent c) (ht : l.find? id = some t) : l.Chain id (t :: c) := by
  cases hp : t.parent with
  | none =>
    rw [hp] at h
    obtain rfl : c = [] := h
    exact .root ht hp
  | some q =>
    rw [hp] at h
    exact .child ht hp h

namespace SnapshotFilter

open Services

variable {p : SnapshotFilter × Services} {depth n : Nat}

/-! ## Look-ups -/

/-- A filter that walks at most `depth` ancestors asks the ledger at most `n` times. -/
def Asks {α : Type} (depth n : Nat) (a : Act (SnapshotFilter × Services) TxnError α) : Prop :=
  Act.Costs (fun p => p.1.maxDepth = depth) (fun p => p.2.ledger.switch.calls) n a

/-- What does not concern the ledger asks it nothing. -/
theorem apart_asks {α : Type} {a : Act Services TxnError α} (ha : Apart a) (depth : Nat) :
    Asks depth 0 (Act.onSnd a) := by
  intro p hp
  rw [Act.exec_onSnd]
  refine ⟨hp, ?_⟩
  dsimp only
  rw [ha.ledger]
  exact Nat.le_refl _

theorem lookUp_asks (depth : Nat) (id : TxnId) : Asks depth 1 (lookUp id) := by
  rintro ⟨f, s⟩ hf
  rw [lookUp, Act.exec_bind_ok (Act.exec_get _)]
  cases f.memo.find? (·.id = id) with
  | some t => exact ⟨hf, Nat.le_succ _⟩
  | none =>
    rcases exec_fetch_cases id s with hx | hx
    · simp only [Act.exec_bind, Act.exec_onSnd, hx]
      exact ⟨hf, Nat.le_refl _⟩
    · simp only [Act.exec_bind, Act.exec_onSnd, hx]
      cases s.ledger.find? id with
      | none => exact ⟨hf, Nat.le_refl _⟩
      | some t =>
        cases ht : t.state.isTerminal <;>
          simpa [Act.exec_bind, ht] using ⟨hf, Nat.le_refl _⟩

/-- A walk looks up as many records as it may at most, whatever it comes across. -/
theorem ancestorsFrom_asks (depth budget : Nat) (seen : List TxnId) (next : Option TxnId) :
    Asks depth budget (ancestorsFrom budget seen next) := by
  induction budget generalizing seen next with
  | zero =>
    cases next with
    | none => exact .pure _ _
    | some id => exact .throw _ _
  | succ budget ih =>
    cases next with
    | none => exact .pure _ _
    | some id =>
      rw [ancestorsFrom]
      split
      · exact .throw _ _
      · rw [Nat.add_comm]
        refine .bind (lookUp_asks depth id) fun found => ?_
        cases found with
        | none => exact .throw _ _
        | some t => exact .bind (ih _ _) fun _ => .pure _ 0

theorem ancestorsOf_asks (depth : Nat) (t : Txn) : Asks depth depth (ancestorsOf t) :=
  .bind_get fun p hp => by
    rw [hp]
    exact ancestorsFrom_asks depth depth _ _

theorem writerChain_asks (depth : Nat) (id : TxnId) : Asks depth (depth + 1) (writerChain id) := by
  rw [Nat.add_comm]
  refine .bind (lookUp_asks depth id) fun found => ?_
  cases found with
  | none => exact .throw _ _
  | some t => exact .bind (ancestorsOf_asks depth t) fun _ => .pure _ 0

theorem announce_asks (depth : Nat) (n : Notice) : Asks depth 0 (announce n) := by
  refine .bind_get fun p _ => ?_
  split
  · exact .pure _ _
  · exact .pure _ _
  · exact fun p hp => ⟨hp, Nat.le_refl _⟩
  · exact apart_asks (offer_apart _ .read n) depth

theorem skip_asks (depth : Nat) (v : RowVersion) (fault : AncestryFault) :
    Asks depth 0 (skip v fault) :=
  .bind (m := 0) (n := 0) (apart_asks (count_apart _) depth) fun _ =>
    .bind (m := 0) (n := 0) (apart_asks (report_apart _) depth) fun _ => .pure _ 0

/-- The walk to the root of the writer is all that a classification asks for. -/
theorem classify_asks (depth : Nat) (v : RowVersion) : Asks depth (depth + 1) (classify v) := by
  rw [classify.eq_def]
  split
  · exact (skip_asks depth v _).mono (Nat.zero_le _)
  · refine .bind_get fun p _ => ?_
    split
    · exact .pure _ _
    · split
      · refine Act.Costs.mono (m := 0 + 0) ?_ (Nat.zero_le _)
        exact .bind (apart_asks (report_apart _) depth) fun _ => .bind_get fun _ _ => .pure _ 0
      · refine .bind (n := 0) (writerChain_asks depth _).attempt fun chain => ?_
        split
        · exact skip_asks depth v _
        · exact .throw _ _
        · refine .bind_get fun p _ => ?_
          split
          · exact skip_asks depth v _
          · split
            · exact .bind (m := 0) (n := 0) (announce_asks depth _) fun _ => .pure _ 0
            · exact .pure _ _

theorem firstVisible_asks (depth : Nat) (vs : List RowVersion) :
    Asks depth (vs.length * (depth + 1)) (firstVisible vs) := by
  induction vs with
  | nil => exact .pure _ _
  | cons v vs ih =>
    rw [List.length_cons, Nat.add_one_mul, Nat.add_comm]
    refine .bind (classify_asks depth v) fun visibility => ?_
    cases visibility with
    | visible => exact .pure _ _
    | hidden => exact ih

theorem visibleRows_asks (depth : Nat) (decided : Option Key) (vs : List RowVersion) :
    Asks depth (vs.length * (depth + 1)) (visibleRows decided vs) := by
  induction vs generalizing decided with
  | nil => exact .pure _ _
  | cons v vs ih =>
    rw [List.length_cons, Nat.add_one_mul, Nat.add_comm, visibleRows]
    split
    · exact (ih decided).mono (Nat.le_add_left _ _)
    · refine .bind (classify_asks depth v) fun visibility => ?_
      cases visibility with
      | hidden => exact ih decided
      | visible =>
        refine .bind (n := 0) (ih _) fun _ => ?_
        split <;> exact .pure _ _

/-! ## What is found -/

/-- The records that the filter finds: those of its memo, and else those of the ledger. -/
def known (p : SnapshotFilter × Services) : Ledger :=
  { p.2.ledger with txns := p.1.memo ++ p.2.ledger.txns }

theorem known_find? (p : SnapshotFilter × Services) : (known p).find? = found? p := by
  funext id
  exact List.find?_append

/-- With a faithful memo, that is the ledger. -/
theorem Faithful.find?_known (h : Faithful p) (id : TxnId) :
    (known p).find? id = p.2.ledger.find? id := by
  rw [known_find?, found?]
  cases hm : p.1.memo.find? (·.id = id) with
  | none => rfl
  | some t =>
    have hid : t.id = id := by simpa using List.find?_some hm
    rw [← hid, h.remembers t (List.mem_of_find?_eq_some hm)]
    rfl

theorem Faithful.chain_known (h : Faithful p) {id : TxnId} {c : List Txn}
    (hc : (known p).Chain id c) : p.2.ledger.Chain id c :=
  hc.of_find? fun t _ ht => by rwa [← h.find?_known]

variable {l : Ledger} {f : SnapshotFilter} {s : Services}

/-- A walk that comes to its end has come to a root. -/
theorem above_of_climb {budget : Nat} {seen : List TxnId} {next : Option TxnId} {c : List Txn}
    (h : climb l.find? budget seen next = .ok c) : l.Above next c ∧ c.length ≤ budget := by
  induction budget generalizing seen next c with
  | zero =>
    cases next with
    | none =>
      cases h
      exact ⟨rfl, Nat.le_refl _⟩
    | some id => cases h
  | succ budget ih =>
    cases next with
    | none =>
      cases h
      exact ⟨rfl, Nat.zero_le _⟩
    | some id =>
      rw [climb] at h
      split at h
      · cases h
      · cases ht : l.find? id with
        | none =>
          rw [ht] at h
          cases h
        | some t =>
          rw [ht] at h
          dsimp only at h
          cases hc : climb l.find? budget (id :: seen) t.parent with
          | error fault =>
            rw [hc] at h
            cases h
          | ok rest =>
            rw [hc] at h
            cases h
            obtain ⟨habove, hlen⟩ := ih hc
            exact ⟨habove.chain ht, Nat.succ_le_succ hlen⟩

/-- What the walk from a writer finds is its chain. -/
theorem chain_of_chainOf {writer : TxnId} {c : List Txn}
    (h : chainOf l.find? depth writer = .ok c) : l.Chain writer c ∧ c.length ≤ depth + 1 := by
  unfold chainOf at h
  cases ht : l.find? writer with
  | none =>
    rw [ht] at h
    cases h
  | some t =>
    rw [ht] at h
    dsimp only at h
    cases hc : climb l.find? depth [t.id] t.parent with
    | error fault =>
      rw [hc] at h
      cases h
    | ok rest =>
      rw [hc] at h
      cases h
      obtain ⟨habove, hlen⟩ := above_of_climb hc
      exact ⟨habove.chain ht, Nat.succ_le_succ hlen⟩

/-- Why a version may be in sight: it is of the family of the reader, it has a marker, or the walk
from its writer comes to a root. -/
theorem sight_visible {v : RowVersion} (h : p.1.sight (found? p) v = .visible) :
    ∃ writer, v.writer = some writer ∧
      (p.1.isFamily writer = true ∨ v.resolution.isSome = true ∨
        ∃ c, (known p).Chain writer c ∧ c.length ≤ p.1.maxDepth + 1) := by
  unfold sight at h
  cases hw : v.writer with
  | none =>
    rw [hw] at h
    cases h
  | some writer =>
    refine ⟨writer, rfl, ?_⟩
    rw [hw] at h
    dsimp only at h
    cases hown : p.1.ownVersion? writer with
    | some visibility =>
      left
      rw [← ownVersion?_isSome, hown]
      rfl
    | none =>
      right
      cases hr : v.resolution with
      | some r => exact .inl rfl
      | none =>
        right
        rw [hown, hr, ← known_find?] at h
        cases hc : chainOf (known p).find? p.1.maxDepth writer with
        | error fault =>
          simp only [Option.getD_none, Option.elim_none, judge, hc, Except.bind] at h
          cases h
        | ok c => exact ⟨c, chain_of_chainOf hc⟩

/-! ## Filters -/

/-- A filter is made, or the chain of its reader is malformed. -/
theorem exec_load_any (hup : s.ledger.switch.Up) (reader : Txn) (sink : Option Sink)
    (maxDepth : Nat) :
    ∃ x s', (load reader sink maxDepth).exec s = (x, s') ∧
      s'.ledger.switch.calls ≤ s.ledger.switch.calls + maxDepth ∧
      ((∃ f, x = .ok f) ∨ ∃ fault, x = .error (.malformedAncestry fault)) := by
  have hcost := (ancestorsOf_asks maxDepth reader ({ reader, sink, maxDepth }, s) rfl).2
  obtain ⟨q, hq, -⟩ := exec_ancestorsFrom (p := ({ reader, sink, maxDepth }, s)) hup maxDepth
    [reader.id] reader.parent
  have hof : (ancestorsOf reader).exec ({ reader, sink, maxDepth }, s) =
      ((climb (found? ({ reader, sink, maxDepth }, s)) maxDepth [reader.id] reader.parent).mapError
        .unresolvable, q) := hq
  rw [hof] at hcost
  simp only [load, Act.exec_withLocal, Act.exec_bind, Act.exec_wrap, hof]
  cases climb (found? ({ reader, sink, maxDepth }, s)) maxDepth [reader.id] reader.parent with
  | error fault => exact ⟨_, _, rfl, hcost, .inr ⟨fault, rfl⟩⟩
  | ok c => exact ⟨_, _, rfl, hcost, .inl ⟨_, rfl⟩⟩

/-! ## Reads -/

section

variable (hrows : s.rows.switch.Up) (hsound : s.rows.poisoned = false)
include hrows hsound

theorem read_asks (f : SnapshotFilter) (key : Key) :
    ((read key).exec (f, s)).2.2.ledger.switch.calls ≤
      s.ledger.switch.calls + (s.rows.versionsOf key).length * (f.maxDepth + 1) := by
  rw [read, Act.exec_bind, Act.exec_onSnd, Act.exec_wrap, exec_read_versions hrows hsound]
  exact ((firstVisible_asks f.maxDepth (s.rows.versionsOf key)).map _ (f, _) rfl).2

theorem scan_asks (f : SnapshotFilter) {start : Key} {stop : Option Key}
    (hrange : ∀ e ∈ stop, start ≤ e) :
    ((scan start stop).exec (f, s)).2.2.ledger.switch.calls ≤
      s.ledger.switch.calls + (s.rows.inRange start stop).length * (f.maxDepth + 1) := by
  rw [scan, Act.exec_bind, Act.exec_onSnd, Act.exec_wrap, exec_scan_versions hrows hsound hrange]
  exact (visibleRows_asks f.maxDepth none (s.rows.inRange start stop) (f, _) rfl).2

end

/-- Filters can be made and used on the services, whatever is recorded. -/
structure Unfailing (s : Services) : Prop where
  /-- A filter is made, or the chain of its reader is malformed. -/
  loads : ∀ reader sink maxDepth, ∃ x s', (load reader sink maxDepth).exec s = (x, s') ∧
    s'.ledger.switch.calls ≤ s.ledger.switch.calls + maxDepth ∧
    ((∃ f, x = .ok f ∧ ∀ p, Run (f, s') p → Faithful p) ∨
      ∃ fault, x = .error (.malformedAncestry fault))
  /-- Every version is classified, with at most one look-up more than ancestors are walked. -/
  classifies : ∀ (f : SnapshotFilter) v, ∃ visibility q,
    (classify v).exec (f, s) = (.ok visibility, q) ∧
      q.2.ledger.switch.calls ≤ s.ledger.switch.calls + (f.maxDepth + 1)
  /-- It is visible only if it was written by the family of the reader, if it has a marker, or if
  the chain of its writer comes to a root within the limit. -/
  hides : ∀ (f : SnapshotFilter) v q, (classify v).exec (f, s) = (.ok .visible, q) →
    ∃ writer, v.writer = some writer ∧ (f.isFamily writer = true ∨ v.resolution.isSome = true ∨
      ∃ c, c.length ≤ f.maxDepth + 1 ∧ (known (f, s)).Chain writer c ∧
        (Faithful (f, s) → s.ledger.Chain writer c))
  /-- Every key can be read while the rows can. -/
  reads : s.rows.switch.Up → s.rows.poisoned = false → ∀ (f : SnapshotFilter) key,
    ∃ value q, (read key).exec (f, s) = (.ok value, q) ∧ q.2.ledger.switch.calls ≤
      s.ledger.switch.calls + (s.rows.versionsOf key).length * (f.maxDepth + 1)
  /-- So can every range be scanned that does not start after its end. -/
  scans : s.rows.switch.Up → s.rows.poisoned = false → ∀ (f : SnapshotFilter) start stop,
    (∀ e ∈ stop, start ≤ e) → ∃ rows q, (scan start stop).exec (f, s) = (.ok rows, q) ∧
      q.2.ledger.switch.calls ≤
        s.ledger.switch.calls + (s.rows.inRange start stop).length * (f.maxDepth + 1)

/-- Whatever is recorded, and whatever a filter remembers: while the ledger answers, a filter is
made, or the chain of its reader is malformed; and every version is classified, with at most one
look-up more than ancestors are walked. A version is visible only if it was written by the family
of the reader, if it has a marker, or if the chain of its writer comes to a root within the limit.
While the rows can be read as well, every key can be read, and every range scanned that does not
start after its end. -/
theorem reads_unfailing (s : Services) (hup : s.ledger.switch.Up) : Unfailing s where
  loads reader sink maxDepth := by
    obtain ⟨x, s', hx, hcalls, ⟨f, rfl⟩ | hfault⟩ := exec_load_any hup reader sink maxDepth
    · exact ⟨_, s', hx, hcalls, .inl ⟨f, rfl, fun p h => h.stays.faithful (load_faithful hx)⟩⟩
    · exact ⟨x, s', hx, hcalls, .inr hfault⟩
  classifies f v := by
    obtain ⟨q, hq, -⟩ := exec_classify_sight (p := (f, s)) hup v
    have hasks := (classify_asks f.maxDepth v (f, s) rfl).2
    rw [hq] at hasks
    exact ⟨_, q, hq, hasks⟩
  hides f v q hvisible := by
    obtain ⟨q', hq, -⟩ := exec_classify_sight (p := (f, s)) hup v
    have hv := Except.ok.inj (congrArg Prod.fst (hq.symm.trans hvisible))
    obtain ⟨writer, hw, hfam | hmarked | ⟨c, hc, hlen⟩⟩ := sight_visible (p := (f, s)) hv
    · exact ⟨writer, hw, .inl hfam⟩
    · exact ⟨writer, hw, .inr (.inl hmarked)⟩
    · exact ⟨writer, hw, .inr (.inr ⟨c, hlen, hc, fun h => h.chain_known hc⟩)⟩
  reads hrows hsound f key := by
    obtain ⟨q, hq⟩ := exec_read_sight (f := f) hup hrows hsound key
    have hasks := read_asks hrows hsound f key
    rw [hq] at hasks
    exact ⟨_, q, hq, hasks⟩
  scans hrows hsound f start stop hrange := by
    obtain ⟨q, hq⟩ := exec_scan_sight (f := f) hup hrows hsound hrange
    have hasks := scan_asks hrows hsound f hrange
    rw [hq] at hasks
    exact ⟨_, q, hq, hasks⟩

/-! ## A record of broken chains -/

/-- The parents of each other. -/
def brokenChild : Txn := { Txn.root 2 2 .snapshot with parent := some 3, dependent := true }

/-- A reader, two transactions that are the parents of each other, one that is its own parent, one
whose parent is not recorded, one that is committed but does not say when, and one below the reader
whose fate does not hang on it. -/
def brokenServices : Services where
  ledger :=
    { txns := [.root 1 1 .snapshot, brokenChild,
        { Txn.root 3 3 .snapshot with parent := some 2, dependent := true },
        { Txn.root 4 4 .snapshot with parent := some 4, dependent := true },
        { Txn.root 5 5 .snapshot with parent := some 404, dependent := true },
        { Txn.root 6 6 .snapshot with state := .committed },
        { Txn.root 7 7 .snapshot with
          parent := some 1, state := .committed, commitTimestamp := some 8 }] }
  rows :=
    { versions :=
        [{ key := [1], writer := some 2, value := some [20] },
          { key := [1], writer := some 404, value := some [44] },
          { key := [1], writer := some 1, value := some [10] },
          { key := [2], writer := some 4, value := some [40] },
          { key := [3], writer := some 5, value := some [50] },
          { key := [4], writer := some 6, value := some [60] },
          { key := [5], writer := some 7, value := some [70] },
          { key := [6], writer := some 404, value := some [4],
            resolution := some (.committed 1) }] }

/-- The filter of the reader. -/
def soundFilter : SnapshotFilter where
  reader := .root 1 1 .snapshot
  maxDepth := 4

/-- The general rule at these records: a transaction on the cycle cannot read; the reader can, and
sees what was written by itself, by a transaction whose chain comes to it, and what has a marker. -/
theorem reads_unfailing_broken :
    (∃ fault s', (load brokenChild none 4).exec brokenServices =
      (.error (.malformedAncestry fault), s') ∧ s'.ledger.switch.calls ≤ 4) ∧
    (∃ q, (classify { key := [1], writer := some 2, value := some [20] }).exec
        (soundFilter, brokenServices) = (.ok .hidden, q) ∧ q.2.ledger.switch.calls ≤ 5) ∧
    (∃ value q, (read [1]).exec (soundFilter, brokenServices) = (.ok value, q) ∧
      value = some [10]) ∧
    ∃ rows q, (scan [] (some [9])).exec (soundFilter, brokenServices) = (.ok rows, q) ∧
      rows = [([1], [10]), ([5], [70]), ([6], [4])] := by
  have hrule := reads_unfailing brokenServices fun _ _ => rfl
  refine ⟨?_, ?_, ?_, ?_⟩
  · obtain ⟨x, s', hx, hcalls, ⟨f, rfl, -⟩ | ⟨fault, rfl⟩⟩ := hrule.loads brokenChild none 4
    · have hfails : ((load brokenChild none 4).exec brokenServices).1.isOk = false := by
        decide +kernel
      rw [hx] at hfails
      cases hfails
    · exact ⟨fault, s', hx, hcalls⟩
  · obtain ⟨visibility, q, hq, hcalls⟩ :=
      hrule.classifies soundFilter { key := [1], writer := some 2, value := some [20] }
    have hhidden : ((classify { key := [1], writer := some 2, value := some [20] }).exec
        (soundFilter, brokenServices)).1 = .ok .hidden := by rfl
    rw [hq] at hhidden
    cases hhidden
    exact ⟨q, hq, hcalls⟩
  · obtain ⟨value, q, hq, -⟩ := hrule.reads (fun _ _ => rfl) rfl soundFilter [1]
    have hvalue : ((read [1]).exec (soundFilter, brokenServices)).1 = .ok (some [10]) := by rfl
    rw [hq] at hvalue
    exact ⟨value, q, hq, Except.ok.inj hvalue⟩
  · obtain ⟨rows, q, hq, -⟩ :=
      hrule.scans (fun _ _ => rfl) rfl soundFilter [] (some [9]) (by decide)
    have hrows : ((scan [] (some [9])).exec (soundFilter, brokenServices)).1 =
        .ok [([1], [10]), ([5], [70]), ([6], [4])] := by rfl
    rw [hq] at hrows
    exact ⟨rows, q, hq, Except.ok.inj hrows⟩

end SnapshotFilter

end NestedTxn
