import NestedTxn.Proofs.Row.Calls
import NestedTxn.Proofs.Visibility.Lookups
import NestedTxn.Proofs.Visibility.Rows

/-!
# A scan is the reads of its range

While the stores answer, whatever is recorded and remembered:

* `SnapshotFilter.sight`: the visibility of a version, from what look-ups find.
* `SnapshotFilter.Consults p q`: what is done from `p` to `q` makes no difference to a later sight.
  Every classification is the sight of the version, and does no more than that
  (`exec_classify_sight`).
* `exec_read_sight`, `exec_scan_sight`: a read is the newest version in sight, and a scan the rows
  in sight.
* `SnapshotFilter.scan_reads`: a scan shows the keys of its range with what a read of each shows.
-/

namespace NestedTxn

theorem Services.offer_ok (h : Nat) (origin : Origin) (n : Notice) (s : Services) :
    ∃ s', (offer h origin n : Act Services TxnError Unit).exec s = (.ok (), s') ∧
      s'.ledger = s.ledger := by
  rw [offer, Act.exec_bind_ok (Act.exec_get s)]
  split
  · exact ⟨s, rfl, rfl⟩
  · split
    · exact ⟨_, rfl, rfl⟩
    · split <;> exact ⟨_, rfl, rfl⟩

section

variable {s : Services} (hrows : s.rows.switch.Up) (hsound : s.rows.poisoned = false)
include hrows hsound

theorem Services.exec_read_versions (key : Key) :
    (onRows (RowStore.read key)).exec s = (.ok (s.rows.versionsOf key), s.withRows s.nextRows) := by
  rw [exec_onRows, RowStore.exec_read hrows.on_advance key, if_neg (by simp [hsound]),
    nextRows_versionsOf]

/-- A range that does not start after its end can be scanned. -/
theorem Services.exec_scan_versions {start : Key} {stop : Option Key}
    (hrange : ∀ e ∈ stop, start ≤ e) :
    (onRows (RowStore.scan start stop)).exec s =
      (.ok (s.rows.inRange start stop), s.withRows s.nextRows) := by
  have hinv : ¬ (s.nextRows.versions ≠ [] ∧ stop.any (· < start) = true) := by
    rintro ⟨-, hany⟩
    obtain ⟨e, he, hlt⟩ := (Option.any_eq_true _ _).1 hany
    exact List.not_lt.2 (hrange e he) (of_decide_eq_true hlt)
  rw [exec_onRows, RowStore.exec_scan hrows.on_advance start stop, if_neg (by simp [hsound]),
    if_neg hinv, nextRows_inRange]

end

namespace SnapshotFilter

open Services

variable {p q r : SnapshotFilter × Services}

/-- What the filter decides of a version of `writer` by its chain. -/
def judge (f : SnapshotFilter) (look : TxnId → Option Txn) (writer : TxnId) :
    Except AncestryFault (Visibility × Option Resolution) :=
  (chainOf look f.maxDepth writer).bind f.verdict

/-- The visibility of a version, where `look` says what look-ups find. What cannot be resolved is
hidden. -/
def sight (f : SnapshotFilter) (look : TxnId → Option Txn) (v : RowVersion) : Visibility :=
  match v.writer with
  | none => .hidden
  | some writer =>
    (f.ownVersion? writer).getD <| v.resolution.elim
      (match f.judge look writer with
        | .ok (visibility, _) => visibility
        | .error _ => .hidden)
      f.atResolution

/-- From `p` to `q` the ledger was asked, and outcomes may have been reported. -/
structure Consults (p q : SnapshotFilter × Services) : Prop where
  filter : q.1 = { p.1 with memo := q.1.memo, noted := q.1.noted }
  up : q.2.ledger.switch.Up
  found : found? q = found? p

theorem Peers.consults (h : Peers p q) : Consults p q := ⟨by rw [h.filter], h.up_right, h.found⟩

theorem Consults.refl (h : p.2.ledger.switch.Up) : Consults p p := ⟨rfl, h, rfl⟩

theorem Consults.trans (h : Consults p q) (h' : Consults q r) : Consults p r :=
  ⟨by rw [h'.filter, h.filter], h'.up, h'.found.trans h.found⟩

/-- What changes no record, and nothing of the filter but what it noted. -/
theorem consults_of_ledger (h : p.2.ledger.switch.Up) (hf : q.1 = { p.1 with noted := q.1.noted })
    (hs : q.2.ledger = p.2.ledger) : Consults p q := by
  refine ⟨by rw [hf], by rw [hs]; exact h, ?_⟩
  funext id
  rw [found?, found?, hs, hf]

theorem Consults.sight (h : Consults p q) : q.1.sight (found? q) = p.1.sight (found? p) := by
  rw [h.filter, h.found]
  rfl

theorem exec_announce_sight (hup : p.2.ledger.switch.Up) (n : Notice) :
    ∃ q, (announce n).exec p = (.ok (), q) ∧ Consults p q := by
  rw [announce, Act.exec_bind_ok (Act.exec_get p)]
  split
  · exact ⟨p, rfl, .refl hup⟩
  · exact ⟨p, rfl, .refl hup⟩
  · exact ⟨_, rfl, consults_of_ledger hup rfl rfl⟩
  · next h _ =>
    obtain ⟨s', hs', hledger⟩ := offer_ok h .read n p.2
    exact ⟨(p.1, s'), by simp [hs'], consults_of_ledger hup rfl hledger⟩

theorem exec_skip_sight (hup : p.2.ledger.switch.Up) (v : RowVersion) (fault : AncestryFault) :
    ∃ q, (skip v fault).exec p = (.ok .hidden, q) ∧ Consults p q :=
  ⟨_, rfl, consults_of_ledger hup rfl rfl⟩

/-- While the ledger answers, every version is classified, as its sight says. -/
theorem exec_classify_sight (hup : p.2.ledger.switch.Up) (v : RowVersion) :
    ∃ q, (classify v).exec p = (.ok (p.1.sight (found? p) v), q) ∧ Consults p q := by
  rw [classify.eq_def, sight]
  cases hw : v.writer with
  | none => exact exec_skip_sight hup v .noWriter
  | some writer =>
    simp only [Act.exec_bind, Act.exec_get]
    cases p.1.ownVersion? writer with
    | some visibility => exact ⟨p, rfl, .refl hup⟩
    | none =>
      cases v.resolution with
      | some r => exact ⟨_, rfl, consults_of_ledger hup rfl rfl⟩
      | none =>
        obtain ⟨q, hq, hpq⟩ := exec_writerChain hup writer
        have hskip : ∀ fault, ∃ r, (skip v fault).exec q = (.ok .hidden, r) ∧ Consults p r := by
          intro fault
          obtain ⟨r, hr, hqr⟩ := exec_skip_sight hpq.up_right v fault
          exact ⟨r, hr, hpq.consults.trans hqr⟩
        simp only [classifyByChain, Act.exec_bind, Act.exec_attempt, hq, Option.getD_none,
          Option.elim_none, judge]
        cases chainOf (found? p) p.1.maxDepth writer with
        | error fault => exact hskip fault
        | ok c =>
          simp only [Act.mapError_ok, Act.exec_bind, Act.exec_get, hpq.verdict, Except.bind]
          rcases p.1.verdict c with fault | ⟨visibility, _ | r⟩
          · exact hskip fault
          · exact ⟨q, rfl, hpq.consults⟩
          · obtain ⟨r', hr', hqr⟩ := exec_announce_sight hpq.up_right ⟨v.key, writer, r⟩
            refine ⟨r', ?_, hpq.consults.trans hqr⟩
            simp only [Act.exec_bind, hr', Act.exec_pure]

/-! ## Reads and scans -/

/-- Whether a version is in sight. -/
def inSight (p : SnapshotFilter × Services) (v : RowVersion) : Bool :=
  p.1.sight (found? p) v = .visible

/-- Whatever was classified before, a version is classified as its sight says. -/
theorem classify_consulted (p : SnapshotFilter × Services) (v : RowVersion) (h : Consults p q) :
    ∃ r, (classify v).exec q = (.ok (.ofBool (inSight p v)), r) ∧ Consults p r := by
  obtain ⟨r, hr, hqr⟩ := exec_classify_sight h.up v
  refine ⟨r, ?_, h.trans hqr⟩
  rw [hr, h.sight, inSight]
  cases p.1.sight (found? p) v <;> rfl

section

variable {f : SnapshotFilter} {s : Services} (hup : s.ledger.switch.Up) (hrows : s.rows.switch.Up)
  (hsound : s.rows.poisoned = false)
include hup hrows hsound

theorem exec_read_sight (key : Key) :
    ∃ q, (read key).exec (f, s) = (.ok (s.rows.valueSeen (inSight (f, s)) key), q) := by
  obtain ⟨q, hq, -⟩ := firstVisible_of_classify (Q := fun _ => True)
    (fun _ v h _ => classify_consulted (f, s.withRows s.nextRows) v h) (.refl hup)
    (s.rows.versionsOf key) (fun _ _ => trivial)
  refine ⟨q, ?_⟩
  rw [read, Act.exec_bind, Act.exec_onSnd, Act.exec_wrap, exec_read_versions hrows hsound]
  simp only [Act.mapError_ok, ← map_eq_pure_bind, Act.exec_map]
  rw [hq]
  rfl

theorem exec_scan_sight {start : Key} {stop : Option Key} (hrange : ∀ e ∈ stop, start ≤ e) :
    ∃ q, (scan start stop).exec (f, s) =
      (.ok (rowsSeen (inSight (f, s)) none (s.rows.inRange start stop)), q) := by
  obtain ⟨q, hq, -⟩ := visibleRows_of_classify (Q := fun _ => True)
    (fun _ v h _ => classify_consulted (f, s.withRows s.nextRows) v h) (.refl hup) none
    (s.rows.inRange start stop) (fun _ _ => trivial)
  refine ⟨q, ?_⟩
  rw [scan, Act.exec_bind, Act.exec_onSnd, Act.exec_wrap, exec_scan_versions hrows hsound hrange]
  exact hq

end

/-- Rows made of the keys of a range. -/
theorem pairwise_filterMap {β : Type} {keys : List Key} (h : keys.Pairwise (· < ·))
    (value : Key → Option β) :
    ((keys.filterMap fun k => (value k).map (k, ·)).map Prod.fst).Pairwise (· < ·) := by
  have hsub : ((keys.filterMap fun k => (value k).map (k, ·)).map Prod.fst).Sublist keys := by
    induction keys with
    | nil => exact .slnil
    | cons k keys ih =>
      have hkeys := ih (List.pairwise_cons.1 h).2
      cases hv : value k with
      | none => simpa [hv] using hkeys.cons k
      | some b => simpa [hv] using hkeys.cons_cons k
  exact h.sublist hsub

/-- Whatever the filter remembers, and whatever is recorded and written: while both stores answer,
every key can be read, and a scan of a range that does not start after its end shows, keys ascending
and each at most once, the keys of the range of which a read in the same state shows a value, with
these values. -/
theorem scan_reads (f : SnapshotFilter) (s : Services) (hup : s.ledger.switch.Up)
    (hrows : s.rows.switch.Up) (hsound : s.rows.poisoned = false) (start : Key)
    (stop : Option Key) (hrange : ∀ e ∈ stop, start ≤ e) :
    (∀ key, ∃ value q, (read key).exec (f, s) = (.ok value, q)) ∧
    ∃ rows q, (scan start stop).exec (f, s) = (.ok rows, q) ∧
      (rows.map Prod.fst).Pairwise (· < ·) ∧
      ∀ key value, (key, value) ∈ rows ↔
        key ∈ s.rows.keys ∧ start ≤ key ∧ (∀ e ∈ stop, key < e) ∧
          ∃ q, (read key).exec (f, s) = (.ok (some value), q) := by
  have hread := fun key => exec_read_sight (f := f) hup hrows hsound key
  refine ⟨fun key => ⟨_, hread key⟩, ?_⟩
  obtain ⟨q, hq⟩ := exec_scan_sight (f := f) hup hrows hsound hrange
  rw [rowsSeen_inRange] at hq
  refine ⟨_, q, hq, pairwise_filterMap (s.rows.keys_ascending.filter _) _, fun key value => ?_⟩
  have hvalue : (∃ q, (read key).exec (f, s) = (.ok (some value), q)) ↔
      s.rows.valueSeen (inSight (f, s)) key = some value := by
    obtain ⟨r, hr⟩ := hread key
    rw [hr]
    constructor
    · rintro ⟨_, h⟩
      exact Except.ok.inj (congrArg Prod.fst h)
    · intro h
      exact ⟨r, by rw [h]⟩
  have hwithin : RowStore.within start stop key = true ↔ start ≤ key ∧ ∀ e ∈ stop, key < e := by
    cases stop <;> simp [RowStore.within]
  rw [hvalue, List.mem_filterMap]
  constructor
  · rintro ⟨k, hk, hkv⟩
    obtain ⟨v, hv, heq⟩ := Option.map_eq_some_iff.1 hkv
    cases heq
    obtain ⟨hkey, hin⟩ := List.mem_filter.1 hk
    obtain ⟨hstart, hstop⟩ := hwithin.1 hin
    exact ⟨hkey, hstart, hstop, hv⟩
  · rintro ⟨hkey, hstart, hstop, hv⟩
    exact ⟨key, List.mem_filter.2 ⟨hkey, hwithin.2 ⟨hstart, hstop⟩⟩, by rw [hv]; rfl⟩

/-! ## Odd rows -/

/-- A filter that remembers a commit which is not recorded. -/
def oddFilter : SnapshotFilter where
  reader := .root 9 9 .snapshot
  maxDepth := 4
  memo := [(Txn.root 8 8 .snapshot).finish (.committed 8 (some 8))]

/-- A deleted row, one below a foreign version and with a marker, one whose writer is not recorded,
one whose writer is its own parent, and one of the writer that the filter remembers. -/
def oddServices : Services where
  ledger :=
    { txns := [.root 9 9 .snapshot, .root 8 8 .snapshot,
        { Txn.root 7 7 .snapshot with parent := some 7 }] }
  rows :=
    { versions :=
        [{ key := [1], writer := some 9 }, { key := [2], value := some [66] },
          { key := [1], writer := some 9, value := some [10] },
          { key := [2], writer := some 5, value := some [20], resolution := some (.committed 3) },
          { key := [3], writer := some 404, value := some [30] },
          { key := [4], writer := some 7, value := some [40] },
          { key := [5], writer := some 8, value := some [50] }] }

/-- The general rule at these rows: two of them are shown. -/
theorem scan_reads_odd :
    ∃ rows q, (scan [] none).exec (oddFilter, oddServices) = (.ok rows, q) ∧
      rows = [([2], [20]), ([5], [50])] ∧
      ∀ key value, (key, value) ∈ rows ↔
        key ∈ oddServices.rows.keys ∧ [] ≤ key ∧ (∀ e ∈ none, key < e) ∧
          ∃ q, (read key).exec (oddFilter, oddServices) = (.ok (some value), q) := by
  obtain ⟨-, rows, q, hscan, -, hrows⟩ := scan_reads oddFilter oddServices (fun _ _ => rfl)
    (fun _ _ => rfl) rfl [] none nofun
  have hshown : ((scan [] none).exec (oddFilter, oddServices)).1 =
      .ok [([2], [20]), ([5], [50])] := by rfl
  rw [hscan] at hshown
  exact ⟨rows, q, hscan, Except.ok.inj hshown, hrows⟩

end SnapshotFilter

end NestedTxn
