import NestedTxn.Proofs.UndoLog.Calls

/-!
# Gets answer what the undo log reads

* `Refines.read_eq`: the leaf of a session sees of a key what the log reads. What was undone it does
  not see; what was published it sees from then on; of what is uncommitted it sees its own.
* `Refines.exec_get`: a get answers that, unless the session was closed.
-/

namespace NestedTxn

namespace UndoLog

open Connection Services

variable {ts : Nat → Timestamp} {clock : Clock} {max : Nat} {w : Database.State} {r : UndoLog}
  {i : Nat}

/-! ## What a leaf sees -/

namespace Refines

variable (h : Refines ts clock max w r) {e : Savepoint} {rest : List Savepoint}
  (hst : (w.sessions i).stack = e :: rest)
include h hst

theorem sees_of_undone {v : RowVersion} (hv : Undone w.services.ledger v) :
    w.services.ledger.sees max e.txn v = false := by
  obtain ⟨writer, hw, k, o, hk, ho, hres⟩ := hv
  have hs := h.orderly.sane.sound
  have hback : effectiveState k = .ok .rolledBack := by
    cases o with
    | rolledBack => exact ho
    | active => cases hres
    | committed => cases hres
  obtain ⟨u, hu, hur⟩ := (hk.effectiveState_eq_rolledBack hs).1 hback
  exact (h.orderly.seated i).sees_undone hs hst hw hk hu hur

theorem sees_of_remains {v : RowVersion} {x : Write}
    (hx : Remains w.services.ledger w.sessions r.marks v x) :
    w.services.ledger.sees max e.txn v = r.shows i x := by
  have hs := h.orderly.sane.sound
  have hseated := h.orderly.seated i
  obtain ⟨m, below, hms⟩ := List.exists_cons_of_ne_nil fun hn =>
    List.cons_ne_nil e rest (hst.symm.trans ((h.marks_eq_nil i).1 hn))
  obtain ⟨e', rest', hst', hem, _⟩ := h.stack_eq_cons hms
  rw [hst] at hst'
  cases hst'
  obtain ⟨writer, hw, hstands⟩ := hx.stands
  rw [Stands] at hstands
  rw [shows]
  cases hstamp : x.stamp with
  | some t =>
    rw [hstamp] at hstands
    obtain ⟨k, o, hk, ho, hres⟩ := hstands
    have hpub : effectiveState k = .ok (.committed t) := by
      cases o with
      | committed t' =>
        cases hres
        exact ho
      | active => cases hres
      | rolledBack => cases hres
    rw [hseated.sees_published hs hst hw hk hpub hem.isolation, hms, hem.begun]
    rfl
  | none =>
    rw [hstamp] at hstands
    obtain ⟨k, hk, hp⟩ := hstands
    obtain ⟨root, hroot, hid, hactive⟩ := hp.root_mem h.orderly hk
    by_cases hi : x.session = i
    · rw [hi] at hp hid
      rw [hseated.sees_own hs hst hw hk ⟨root, List.mem_of_getLast? hroot, hid⟩ hp.settled]
      simp [hi]
    · have hactive : effectiveState k = .ok .active :=
        (hk.effectiveState_eq_active hs).2 ⟨hp.live, root, hroot, hactive⟩
      rw [hseated.sees_stranger hs hst hw hk (hp.apart h.orderly hk hi) hactive hem.isolation]
      simp [hi]

/-- The leaf sees of a key what the log reads. -/
theorem read_eq (key : Key) :
    ((w.services.rows.versionsOf key).find? (w.services.ledger.sees max e.txn)).bind (·.value) =
      r.read i key := by
  rw [RowStore.versionsOf, List.find?_filter, read]
  refine h.trace.find?_eq (fun v hv => ?_) fun v x hx => ⟨?_, hx.value⟩
  · simp [h.sees_of_undone hst hv]
  · rw [h.sees_of_remains hst hx, hx.key, Bool.decide_and, Bool.decide_eq_true,
      Bool.decide_eq_true]

omit h hst

/-- A get answers what the log reads, unless the session was closed. -/
theorem exec_get {db : Database} (hts : StrictMono ts)
    (hiso : db.config.defaultIsolation = .snapshot)
    (h : Refines ts clock db.config.maxAncestorDepth.toNat w r) (hrest : (w.sessions i).Rests)
    (hsup : Supplies clock ts (r.begin ts i).taken) (key : Key) :
    ∃ q, (Session.get db key).exec (w.view i) =
        (if (r.clients i).closed then .error (.txn .closed)
          else .ok ((r.begin ts i).read i key), q) ∧
      Leaves ts clock db.config.maxAncestorDepth.toNat w i (r.begin ts i) q := by
  cases hcl : (r.clients i).closed with
  | true =>
    refine ⟨w.view i, Session.exec_withFilter_error db (h.exec_activeTxn_closed hcl), ?_, hrest⟩
    rwa [begin_of_closed hcl, Database.State.put_view]
  | false =>
    obtain ⟨q, e, rest, hx, hq, hst⟩ := h.exec_activeTxn hts hiso hrest hcl hsup
    have hseated := hq.orderly.seated i
    rw [Database.State.sessions_put] at hseated
    obtain ⟨s, hget, halike, hsane⟩ := Session.exec_get db hx hq.orderly.sane hseated key
    have hpois : q.2.rows.poisoned = false := hq.poisoned
    have hst' : ((w.put i q).sessions i).stack = e :: rest := by simpa using hst
    have hread := hq.read_eq hst' key
    refine ⟨(q.1, s), ?_, hq.alike halike hsane, fun _ hn => by rw [hst] at hn; cases hn⟩
    rw [hget, hpois, ← hread]
    rfl

end Refines

end UndoLog

end NestedTxn
