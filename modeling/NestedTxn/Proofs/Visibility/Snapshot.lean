import NestedTxn.Proofs.Lifecycle.Timestamps
import NestedTxn.Proofs.Visibility.Safety

/-!
# Snapshots

* `SnapshotFilter.decision_apart_iff`: a snapshot hides a version of a stranger iff the writer is
  not effectively committed at or before the begin timestamp of the reader.
* `SnapshotFilter.classify_hidden_stays`: while timestamps increase, a version of a stranger that is
  hidden from a snapshot stays hidden from it.
-/

namespace NestedTxn

namespace SnapshotFilter

open Services Lifecycle

/-- A snapshot hides a version of a stranger iff it was not committed by then, or if the filter does
not walk that far. -/
theorem decision_apart_iff {l : Ledger} {max : Nat} {f : SnapshotFilter} {writer : TxnId}
    {c : List Txn} (hs : l.Sound max) (hc : l.Chain writer c) (hm : f.meets c = false)
    (hi : f.reader.isolation = .snapshot) :
    f.decision writer c none = .hidden ↔ (c.length ≤ f.maxDepth + 1 →
      ∀ ts, effectiveState c = .ok (.committed ts) → f.reader.beginTimestamp < ts) := by
  by_cases hlen : c.length ≤ f.maxDepth + 1
  · obtain ⟨e, he⟩ := hc.effectiveState_ok hs
    rw [decision_of_not_meets hc hm hlen he, he]
    cases e with
    | active => simp [atState, hi, Visibility.ofBool]
    | rolledBack => simp [atState]
    | committed ts =>
      by_cases hts : ts ≤ f.reader.beginTimestamp
      · simp [atState, atCommit, hi, Visibility.ofBool, hts, hlen]
      · simp [atState, atCommit, hi, Visibility.ofBool, hts, Nat.lt_of_not_le hts]
  · simp [decision_of_deep (isFamily_of_not_meets hc hm) hlen, hlen]

/-- What is hidden from a snapshot stays hidden while all commits take place after its begin. -/
theorem decision_apart_later {s s' : Services} {max max' : Nat} {f f' : SnapshotFilter}
    {writer : TxnId} {c c' : List Txn} (hd : s.Dated s') (hs : s.ledger.Sound max)
    (hs' : s'.ledger.Sound max') (hc : s.ledger.Chain writer c) (hc' : s'.ledger.Chain writer c')
    (hm : f.meets c = false) (hm' : f'.meets c' = false) (hi : f.reader.isolation = .snapshot)
    (ho : f'.reader.origin = f.reader.origin) (hdepth : f'.maxDepth = f.maxDepth)
    (hlate : ∀ ts, s.Drawn s' ts → f.reader.beginTimestamp < ts)
    (h : f.decision writer c none = .hidden) : f'.decision writer c' none = .hidden := by
  have hlen : c'.length = c.length := by
    simpa [Ledger.ids] using congrArg List.length (hc.ids_later hc' hd.grows)
  refine (decision_apart_iff hs' hc' hm' ((Txn.isolation_of_origin ho).trans hi)).2 ?_
  intro hle ts hts
  rw [Txn.begin_of_origin ho]
  rcases hd.committed_before hs hs' hc hc' hts with hts | hts
  · exact (decision_apart_iff hs hc hm hi).1 h (by rwa [← hlen, ← hdepth]) ts hts
  · exact hlate ts hts

/-- Where a filter for a reader could be made, one can be made later while the ledger answers. -/
theorem load_later {s s₁ s' : Services} {r r' u u' : Txn} {cr cr' : List Txn} {maxDepth : Nat}
    {sink : Option Sink} {f : SnapshotFilter} (hg : s.ledger.Grows s'.ledger)
    (hr : s.ledger.Chain r.id (u :: cr)) (hru : u.origin = r.origin)
    (hl : (load r sink maxDepth).exec s = (.ok f, s₁)) (hr' : s'.ledger.Chain r.id (u' :: cr'))
    (hru' : u'.origin = r'.origin) (hup : s'.ledger.switch.Up) (sink' : Option Sink) :
    ∃ f' s₂, (load r' sink' maxDepth).exec s' = (.ok f', s₂) := by
  obtain ⟨_, _, _, _, _, hlen⟩ := load_ok hr hru hl
  have hlen' : (u' :: cr').length = (u :: cr).length := by
    simpa [Ledger.ids] using congrArg List.length (hr.ids_later hr' hg)
  have hcru : s'.ledger.Chain u'.id (u' :: cr') := by rwa [hr'.id_head]
  obtain ⟨f', s₂, _, _, _, ⟨_, hl'⟩ | ⟨hdeep, _⟩⟩ := exec_load sink' maxDepth hcru
    (Txn.id_of_origin hru').symm (Txn.parent_of_origin hru').symm hup
  · exact ⟨f', s₂, hl'⟩
  · simp only [List.length_cons] at hlen'
    omega

/-- While timestamps increase, a version of a stranger that a fresh filter hides from a snapshot is
hidden from it by every fresh filter later in the run. -/
theorem classify_hidden_stays {config : Config} {w₀ w w' : World} (h₀ : w₀.Fresh)
    (h : Reach config w₀ w) (h' : Reach config w w')
    (hrises : w₀.services.clock.Rises w₀.services.clock.taken w'.services.clock.taken)
    {r r' u u' : Txn} {cr c : List Txn} (hr : w.ledger.Chain r.id (u :: cr)) (hru : r.Becomes u)
    (hiso : r.isolation = .snapshot) {writer : TxnId} (hc : w.ledger.Chain writer c)
    (hapart : ∀ t ∈ c, t.id ∉ Ledger.ids (u :: cr)) {v : RowVersion}
    (hw : v.writer = some writer) (hv : v.resolution = none) {sink : Option Sink}
    {maxDepth : Nat} {f : SnapshotFilter} {s : Services}
    (hl : (load r sink maxDepth).exec w.services = (.ok f, s))
    (hhid : ((classify v).exec (f, s)).1 = .ok .hidden)
    (hr' : w'.ledger.find? r.id = some u') (hru' : r'.Becomes u') (sink' : Option Sink) :
    (w'.ledger.switch.Up → ∃ f' s', (load r' sink' maxDepth).exec w'.services = (.ok f', s') ∧
      ((classify v).exec (f', s')).1 = .ok .hidden) ∧
    ∀ f' s' x, (load r' sink' maxDepth).exec w'.services = (.ok f', s') →
      ((classify v).exec (f', s')).1 = .ok x → x = .hidden := by
  have hs := (h.genuine h₀).sound
  have hs' := ((h.trans h').genuine h₀).sound
  -- at the later moment both chains have the same nodes
  obtain ⟨c', hc', _⟩ := hc.grows h'.grows
  obtain ⟨cr₁, hcr, _⟩ := hr.grows h'.grows
  obtain ⟨u₁, cr', rfl, hu₁⟩ := hcr.eq_cons
  rw [hr'] at hu₁
  cases hu₁
  have hids := hr.ids_later hcr h'.grows
  have hapart' : ∀ t ∈ c', t.id ∉ Ledger.ids (u' :: cr') := fun t ht hm => by
    obtain ⟨t₀, ht₀, htt⟩ := hc.mem_before hc' h'.grows ht
    exact hapart t₀ ht₀ (by rwa [← Txn.id_of_origin htt.origin, ← hids])
  have horigin : r'.origin = r.origin := by
    obtain ⟨u₂, hu₂, huu⟩ := h'.grows r.id u hr.find?_head
    rw [hr'] at hu₂
    cases hu₂
    rw [← hru'.origin, huu.origin, hru.origin]
  have hcr' : w'.ledger.Chain r'.id (u' :: cr') := Txn.id_of_origin horigin ▸ hcr
  -- the reader began before whatever commits from then on
  have hlate : ∀ ts, w.services.Drawn w'.services ts → r.beginTimestamp < ts := fun ts hts => by
    rw [← Txn.begin_of_origin hru.origin]
    exact (h.begun h₀ hr.find?_head).lt hts h.dated.toElapsed hrises
  have hidden : f.decision writer c none = .hidden := by
    rcases classify_loaded hr hru.origin hl hw hv hc with he | ⟨he, _⟩
    · rw [hhid] at he
      exact (Except.ok.inj he).symm
    · rw [hhid] at he
      cases he
  obtain ⟨_, _, hreader, _, hdepth, _⟩ := load_ok hr hru.origin hl
  have hhides : ∀ f' s', (load r' sink' maxDepth).exec w'.services = (.ok f', s') →
      w'.services.Answers (.ok .hidden) ((classify v).exec (f', s')).1 := by
    intro f' s' hl'
    obtain ⟨_, _, hreader', _, hdepth', _⟩ := load_ok hcr' hru'.origin hl'
    have hdec : f'.decision writer c' none = .hidden :=
      decision_apart_later h'.dated hs hs' hc hc' (meets_loaded hr hru.origin hl hapart)
        (meets_loaded hcr' hru'.origin hl' hapart') (by rw [hreader, hiso])
        (by rw [hreader, hreader', horigin]) (by rw [hdepth, hdepth'])
        (by rw [hreader]; exact hlate) hidden
    rw [← hdec]
    exact classify_loaded hcr' hru'.origin hl' hw hv hc'
  refine ⟨fun hup => ?_, fun f' s' x hl' hx => ?_⟩
  · obtain ⟨f', s', hl'⟩ := load_later h'.grows hr hru.origin hl hcr hru'.origin hup sink'
    exact ⟨f', s', hl', (hhides f' s' hl').eq hup⟩
  · rcases hhides f' s' hl' with he | ⟨he, _⟩
    · rw [hx] at he
      exact Except.ok.inj he
    · rw [hx] at he
      cases he

/-! ## A writer that commits later -/

/-- Two roots. -/
def twoRoots : World :=
  (World.empty.after {} (.beginRoot .snapshot)).after {} (.beginRoot .snapshot)

/-- The second one commits. -/
def secondCommitted : World := twoRoots.after {} (.commit (.root 2 2 .snapshot))

theorem reach_twoRoots : Reach {} World.empty twoRoots :=
  .tail (.tail .refl (.call fun t ht => by cases ht)) (.call fun t ht => by cases ht)

theorem reach_secondCommitted : Reach {} twoRoots secondCommitted := by
  refine .single (.call fun t ht => ?_)
  obtain rfl := List.mem_singleton.1 ht
  decide

/-- What the second root wrote stays hidden from the first one after its commit. -/
theorem classify_hidden_stays_committed :
    (∃ u, secondCommitted.ledger.find? 2 = some u ∧ u.state = .committed) ∧
      ∃ f s, (load (.root 1 1 .snapshot) none 64).exec secondCommitted.services = (.ok f, s) ∧
        ((classify { key := [1], writer := some 2 }).exec (f, s)).1 = .ok .hidden := by
  obtain ⟨f, s, hl, hhid⟩ : ∃ f s,
      (load (.root 1 1 .snapshot) none 64).exec twoRoots.services = (.ok f, s) ∧
        ((classify { key := [1], writer := some 2 }).exec (f, s)).1 = .ok .hidden :=
    ⟨_, _, rfl, rfl⟩
  have hreader : twoRoots.ledger.Chain 1 [.root 1 1 .snapshot] := .root (by decide) rfl
  have hwriter : twoRoots.ledger.Chain 2 [.root 2 2 .snapshot] := .root (by decide) rfl
  have hapart : ∀ t ∈ [Txn.root 2 2 .snapshot], t.id ∉ Ledger.ids [Txn.root 1 1 .snapshot] := by
    decide
  have hlater : secondCommitted.ledger.find? 1 = some (.root 1 1 .snapshot) := by decide
  have h := classify_hidden_stays World.empty_fresh reach_twoRoots reach_secondCommitted
    (Clock.rises_standard (by decide)) hreader (.refl _) rfl hwriter hapart rfl rfl hl hhid hlater
    (.refl _) none
  exact ⟨⟨_, rfl, rfl⟩, h.1 fun _ _ => rfl⟩

end SnapshotFilter

end NestedTxn
