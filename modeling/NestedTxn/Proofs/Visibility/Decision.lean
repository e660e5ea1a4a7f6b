import NestedTxn.Proofs.Visibility.Walk

/-!
# What a filter decides

* `SnapshotFilter.byWalk`: the visibility of a version from the chain of its writer.
  `SnapshotFilter.decision`: the same with the shortcuts for own versions and for marked ones.
* `classify_answers`: where the ledger answers, `classify` decides that, and queues nothing but true
  outcomes. `exec_classify`: the same while the ledger answers.
-/

namespace NestedTxn

namespace Services

variable {s : Services}

/-- A true notice that is queued is true. -/
theorem exec_offer {ε : Type} {n : Notice} (hn : s.ledger.Resolves n.writer n.resolution) (h : Nat)
    (origin : Origin) :
    ∃ s', (offer h origin n : Act Services ε Unit).exec s = (.ok (), s') ∧ s.Reads s' := by
  have hdrop : ∀ reason, ∃ s', (drop n reason : Act Services ε Unit).exec s = (.ok (), s') ∧
      s.Reads s' := fun reason =>
    ⟨_, rfl, (counted_looks s _).reads.trans (reported_looks _ _).reads⟩
  rw [offer, Act.exec_bind_ok (Act.exec_get s)]
  cases hq : s.queues[h]? with
  | none => exact ⟨s, rfl, .refl s⟩
  | some q =>
    dsimp only
    split
    · exact hdrop _
    · split
      · exact hdrop _
      · refine ⟨_, rfl, .trans ?_ (counted_looks _ _).reads⟩
        refine ⟨rfl, rfl, rfl, id, fun q' hq' m hm => ?_⟩
        rcases List.mem_or_eq_of_mem_set hq' with hq' | rfl
        · exact .inl ⟨q', hq', hm⟩
        · rw [Queue.pending_push_notice] at hm
          rcases List.mem_append.1 hm with hm | hm
          · exact .inl ⟨q, List.mem_of_getElem? hq, hm⟩
          · rw [List.mem_singleton.1 hm]
            exact .inr hn

end Services

namespace SnapshotFilter

open Services

variable {f : SnapshotFilter} {s : Services} {c : List Txn}

/-- The visibility of a version from the chain of its writer; hidden if the filter does not walk
that far. -/
def byWalk (f : SnapshotFilter) (c : List Txn) : Visibility :=
  if c.length ≤ f.maxDepth + 1 then
    match f.verdict c with
    | .ok (visibility, _) => visibility
    | .error _ => .hidden
  else .hidden

/-- The visibility of a version of `writer`, whose chain is `c`. -/
def decision (f : SnapshotFilter) (writer : TxnId) (c : List Txn) (r : Option Resolution) :
    Visibility :=
  (f.ownVersion? writer).getD (r.elim (f.byWalk c) f.atResolution)

/-- What a walk newly finds is the final outcome of the writer. -/
theorem resolution_of_verdict {v : Visibility} {r : Resolution}
    (h : f.verdict c = .ok (v, some r)) :
    ∃ e, effectiveState c = .ok e ∧ e.resolution? = some r := by
  unfold verdict at h
  split at h
  · cases h
  · split at h
    · cases h
    · next he =>
      cases h
      exact ⟨_, he, rfl⟩
    · cases h
    · next ts he =>
      split at h
      · cases h
        exact ⟨_, he, rfl⟩
      · cases h

theorem exec_announce {n : Notice} (hn : s.ledger.Resolves n.writer n.resolution) :
    ∃ p, (announce n).exec (f, s) = (.ok (), p) ∧ Browses (f, s) p := by
  rw [announce, Act.exec_bind_ok (Act.exec_get (f, s))]
  rcases hsink : f.sink with _ | (_ | _ | h)
  · exact ⟨(f, s), rfl, .refl _⟩
  · exact ⟨_, rfl, rfl, .refl s, id⟩
  · exact ⟨(f, s), rfl, .refl _⟩
  · obtain ⟨s', hs', hr⟩ := exec_offer (ε := TxnError) hn h .read
    refine ⟨(f, s'), ?_, rfl, hr, fun hm => hm.of_txns hr.txns⟩
    simp [hs']

theorem exec_skip (v : RowVersion) (fault : AncestryFault) (p : SnapshotFilter × Services) :
    ∃ p', (skip v fault).exec p = (.ok .hidden, p') ∧ Browses p p' :=
  ⟨_, rfl, rfl, (counted_looks p.2 _).reads.trans (reported_looks _ _).reads, id⟩

theorem Browses.verdict {p p' : SnapshotFilter × Services} (h : Browses p p') (c : List Txn) :
    p'.1.verdict c = p.1.verdict c := by
  rw [h.filter]
  rfl

/-- An unmarked version is classified by the chain of its writer. -/
theorem classifyByChain_answers {v : RowVersion} {writer : TxnId}
    (hc : s.ledger.Chain writer c) (hr : f.Remembers s.ledger) :
    ∃ y p, (classifyByChain v writer).exec (f, s) = (y, p) ∧ Browses (f, s) p ∧
      s.Answers (.ok (f.byWalk c)) y := by
  obtain ⟨x, y, p, hw, hb, rfl | ⟨rfl, hoff⟩, ⟨hlen, rfl⟩ | ⟨hlen, fault, rfl⟩⟩ :=
    writerChain_answers hc hr
  · have hv := hb.verdict c
    rw [classifyByChain, Act.exec_bind, Act.exec_attempt, hw]
    simp only [Act.exec_bind, Act.exec_get, hv, byWalk, if_pos hlen]
    rcases hd : f.verdict c with fault | ⟨visibility, _ | r⟩
    · obtain ⟨p', hp', hb'⟩ := exec_skip v fault p
      exact ⟨_, p', hp', hb.trans hb', .refl _ _⟩
    · exact ⟨_, p, rfl, hb, .refl _ _⟩
    · obtain ⟨e, he, hres⟩ := resolution_of_verdict hd
      obtain ⟨p', hp', hb'⟩ := exec_announce (f := p.1) (s := p.2) (n := ⟨v.key, writer, r⟩)
        ⟨c, e, hc.of_txns hb.reads.txns, he, hres⟩
      refine ⟨_, p', ?_, hb.trans hb', .refl _ _⟩
      simp only [Act.exec_bind, hp', Act.exec_pure]
  · obtain ⟨p', hp', hb'⟩ := exec_skip v fault p
    refine ⟨_, p', ?_, hb.trans hb', .refl _ _⟩
    rw [classifyByChain, Act.exec_bind, Act.exec_attempt, hw, byWalk, if_neg (by omega)]
    exact hp'
  all_goals
    refine ⟨_, p, ?_, hb, .inr ⟨rfl, hoff⟩⟩
    rw [classifyByChain, Act.exec_bind, Act.exec_attempt, hw]
    rfl

/-- A version is classified by family, marker or chain, in this order. -/
theorem classify_answers {v : RowVersion} {writer : TxnId} (hw : v.writer = some writer)
    (hc : s.ledger.Chain writer c) (hr : f.Remembers s.ledger) :
    ∃ y p, (classify v).exec (f, s) = (y, p) ∧ Browses (f, s) p ∧
      s.Answers (.ok (f.decision writer c v.resolution)) y := by
  rw [classify, hw]
  simp only [Act.exec_bind, Act.exec_get, decision]
  cases f.ownVersion? writer with
  | some visibility => exact ⟨_, (f, s), rfl, .refl _, .refl _ _⟩
  | none =>
    cases v.resolution with
    | some r =>
      exact ⟨_, _, rfl, ⟨rfl, (reported_looks s (.usedCached writer r)).reads, id⟩, .refl _ _⟩
    | none => exact classifyByChain_answers hc hr

theorem exec_classify {v : RowVersion} {writer : TxnId} (hw : v.writer = some writer)
    (hc : s.ledger.Chain writer c) (hr : f.Remembers s.ledger) (hup : s.ledger.switch.Up) :
    ∃ p, (classify v).exec (f, s) = (.ok (f.decision writer c v.resolution), p) ∧
      Browses (f, s) p := by
  obtain ⟨y, p, hx, hb, hy⟩ := classify_answers hw hc hr
  exact ⟨p, hy.eq hup ▸ hx, hb⟩

end SnapshotFilter

end NestedTxn
