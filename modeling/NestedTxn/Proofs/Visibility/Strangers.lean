import NestedTxn.Proofs.Lifecycle.Finality
import NestedTxn.Proofs.Visibility.Frames
import NestedTxn.Proofs.Visibility.Safety

/-!
# Versions of strangers

A stranger to a reader is a writer whose chain shares no node with that of the reader.

* `SnapshotFilter.Searches p p'`: the filter looked transactions up and told nobody anything.
  `SnapshotFilter.tell`: the state after an outcome was reported.
* `SnapshotFilter.exec_classifyByChain`: a walk decides `byWalk` and reports `outcome?`, once, after
  all look-ups. A walk that fails reports nothing.
* `Txn.SeesUnder`: the part of the decision that the root of the writer takes.
* `SnapshotFilter.classify_stranger`: so an unmarked version of a stranger is visible iff the writer
  has no rolled back node on its chain and the reader sees what its root covers.
-/

namespace NestedTxn

/-- What the root `root` covers is seen by the stranger `r`. -/
def Txn.SeesUnder (r root : Txn) : Prop :=
  match r.isolation with
  | .snapshot => root.state = .committed ∧ ∃ ts, root.commitTimestamp = some ts ∧
      ts ≤ r.beginTimestamp
  | .readCommitted => root.state = .committed
  | .readUncommitted => True

namespace SnapshotFilter

open Services Lifecycle

variable {f : SnapshotFilter} {s s' : Services} {c : List Txn}

/-! ## Look-ups -/

/-- From `p` to `p'` the filter looked transactions up and told nobody anything. -/
structure Searches (p p' : SnapshotFilter × Services) : Prop where
  /-- The filter holds more records, and is as it was otherwise. -/
  filter : p'.1 = { p.1 with memo := p'.1.memo }
  looks : p.2.Looks p'.2

theorem Searches.refl (p : SnapshotFilter × Services) : Searches p p := ⟨rfl, .refl _⟩

theorem Searches.trans (p p' p'' : SnapshotFilter × Services) (h : Searches p p')
    (h' : Searches p' p'') : Searches p p'' :=
  ⟨by rw [h'.filter, h.filter], h.looks.trans _ _ _ h'.looks⟩

theorem Searches.outcomes {p p' : SnapshotFilter × Services} (h : Searches p p') :
    p'.1.noted = p.1.noted ∧ p'.2.queues = p.2.queues :=
  ⟨by rw [h.filter], h.looks.queues⟩

theorem searching_searches : Searching Searches fun _ => True := by
  refine .of_fetch .refl .trans (fun p _ => ⟨rfl, .refl p.2⟩) (fun id => ?_) fun _ => trivial
  refine .of_keeps (fun p => ?_) fun _ => trivial
  rw [Act.exec_onSnd]
  rcases exec_fetch_cases id p.2 with h | h <;> rw [h] <;> exact ⟨rfl, looks_called p.2⟩

theorem skip_searches (v : RowVersion) (fault : AncestryFault) :
    Act.Keeps Searches (skip v fault) := fun p =>
  ⟨rfl, (counted_looks p.2 _).trans _ _ _ (reported_looks _ _)⟩

/-- A fresh filter has told nobody anything. -/
theorem load_untold {r : Txn} {sink : Option Sink} {maxDepth : Nat}
    (hl : (load r sink maxDepth).exec s = (.ok f, s')) :
    f.sink = sink ∧ f.noted = [] ∧ s.Looks s' := by
  rw [load, Act.exec_withLocal, Prod.mk.injEq] at hl
  obtain ⟨hok, rfl⟩ := hl
  obtain ⟨ancestors, p, hwalk, hf⟩ := Act.exec_bind_eq_ok (Prod.ext hok rfl)
  have hsearch := (searching_searches.ancestorsOf r).keeps ({ reader := r, sink, maxDepth }, s)
  rw [Act.exec_wrap, Prod.mk.injEq] at hwalk
  rw [hwalk.2] at hsearch
  cases hf
  exact ⟨by rw [hsearch.filter], hsearch.outcomes.1, hsearch.looks⟩

/-! ## Reports -/

/-- The state after the outcome of the writer of `v` was reported, if there is one. -/
def tell (v : RowVersion) (writer : TxnId) (outcome : Option Resolution)
    (p : SnapshotFilter × Services) : SnapshotFilter × Services :=
  outcome.elim p fun r => ((announce ⟨v.key, writer, r⟩).exec p).2

/-- The outcome that a walk along `c` reports. -/
def outcome? (f : SnapshotFilter) (c : List Txn) : Option Resolution :=
  if c.length ≤ f.maxDepth + 1 then
    match f.verdict c with
    | .ok (_, outcome) => outcome
    | .error _ => none
  else none

/-- A recorder notes what it is told. -/
theorem noted_tell {p : SnapshotFilter × Services} (hsink : p.1.sink = some .recorder)
    (v : RowVersion) (writer : TxnId) (outcome : Option Resolution) :
    (tell v writer outcome p).1.noted =
      (outcome.map (⟨v.key, writer, ·⟩ : Resolution → Notice)).toList ++ p.1.noted := by
  cases outcome with
  | none => rfl
  | some r => simp [tell, announce, Act.exec_bind, hsink]

/-- A walk looks things up, decides, and then reports. One that fails reports nothing. -/
theorem exec_classifyByChain {v : RowVersion} {writer : TxnId} (hc : s.ledger.Chain writer c)
    (hr : f.Remembers s.ledger) :
    ∃ p, Searches (f, s) p ∧
      ((classifyByChain v writer).exec (f, s) =
          (.ok (f.byWalk c), tell v writer (f.outcome? c) p) ∨
        (classifyByChain v writer).exec (f, s) = (.error (.unavailable .ledger), p) ∧
          ¬ s.ledger.switch.Up) := by
  have hsearch := (searching_searches.writerChain writer).keeps (f, s)
  obtain ⟨x, y, p, hw, hb, rfl | ⟨rfl, hoff⟩, hx⟩ := writerChain_answers hc hr
  · rw [hw] at hsearch
    rcases hx with ⟨hlen, rfl⟩ | ⟨hlen, fault, rfl⟩
    · have hv := hb.verdict c
      rw [classifyByChain, Act.exec_bind, Act.exec_attempt, hw]
      simp only [Act.exec_bind, Act.exec_get, hv, byWalk, outcome?, if_pos hlen]
      rcases hd : f.verdict c with fault | ⟨visibility, _ | r⟩
      · exact ⟨_, hsearch.trans _ _ _ (skip_searches v fault p), .inl rfl⟩
      · exact ⟨p, hsearch, .inl rfl⟩
      · obtain ⟨e, he, hres⟩ := resolution_of_verdict hd
        obtain ⟨p', hp', -⟩ := exec_announce (f := p.1) (s := p.2) (n := ⟨v.key, writer, r⟩)
          ⟨c, e, hc.of_txns hb.reads.txns, he, hres⟩
        refine ⟨p, hsearch, .inl ?_⟩
        simp only [Act.exec_bind, hp', Act.exec_pure, tell, Option.elim]
    · refine ⟨_, hsearch.trans _ _ _ (skip_searches v fault p), .inl ?_⟩
      have hdeep : ¬ c.length ≤ f.maxDepth + 1 := by omega
      rw [classifyByChain, Act.exec_bind, Act.exec_attempt, hw, byWalk, outcome?, if_neg hdeep,
        if_neg hdeep]
      rfl
  · rw [hw] at hsearch
    refine ⟨p, hsearch, .inr ⟨?_, hoff⟩⟩
    rw [classifyByChain, Act.exec_bind, Act.exec_attempt, hw]
    rfl

/-! ## Decisions -/

section

variable {l : Ledger} {max : Nat} {writer : TxnId} {root : Txn} {e : EffectiveState}

/-- A stranger sees what was written by a live writer under a root that settles it. -/
theorem atState_eq_visible (hs : l.Sound max) (hc : l.Chain writer c)
    (he : effectiveState c = .ok e) (hroot : c.getLast? = some root) :
    f.atState e = .visible ↔ (∀ t ∈ c, t.state ≠ .rolledBack) ∧ f.reader.SeesUnder root := by
  cases e with
  | rolledBack =>
    obtain ⟨t, ht, hback⟩ := (hc.effectiveState_eq_rolledBack hs).1 he
    exact ⟨fun h => (by cases h), fun h => absurd hback (h.1 t ht)⟩
  | active =>
    obtain ⟨hlive, root', hroot', hactive⟩ := (hc.effectiveState_eq_active hs).1 he
    rw [hroot] at hroot'
    cases hroot'
    rw [and_iff_right hlive]
    cases hi : f.reader.isolation <;> simp [atState, Visibility.ofBool, Txn.SeesUnder, hi, hactive]
  | committed ts =>
    obtain ⟨hlive, root', hroot', hcommitted, hts⟩ := (hc.effectiveState_eq_committed hs).1 he
    rw [hroot] at hroot'
    cases hroot'
    rw [and_iff_right hlive, atState, atCommit_eq_visible]
    cases hi : f.reader.isolation <;> simp [Txn.SeesUnder, hi, hcommitted, hts]

/-- A walk reports the outcome of a stranger that is rolled back, and of one that it shows. -/
theorem outcome?_of_not_meets (hm : f.meets c = false) (hlen : c.length ≤ f.maxDepth + 1)
    (he : effectiveState c = .ok e) {r : Resolution} :
    f.outcome? c = some r ↔
      e.resolution? = some r ∧ (r = .rolledBack ∨ f.atState e = .visible) := by
  rw [outcome?, if_pos hlen, verdict, familyVisibility?_of_not_meets hm, he]
  cases e with
  | active => simp [EffectiveState.resolution?]
  | rolledBack => exact ⟨fun h => ⟨h, .inl (Option.some.inj h).symm⟩, And.left⟩
  | committed ts =>
    cases hv : f.atCommit ts with
    | visible => simp [EffectiveState.resolution?, atState, hv]
    | hidden =>
      simp only [hv]
      refine ⟨fun h => (by cases h), ?_⟩
      rintro ⟨h, rfl | hshown⟩
      · cases h
      · rw [atState, hv] at hshown
        cases hshown

/-- What a filter for `r` answers and reports of a stranger whose chain `c` ends at `root`. -/
structure Judges (r root : Txn) (c : List Txn) (x : Visibility) (outcome : Option Resolution) :
    Prop where
  visible : x = .visible ↔ (∀ t ∈ c, t.state ≠ .rolledBack) ∧ r.SeesUnder root
  rolledBack : outcome = some .rolledBack ↔ ∃ t ∈ c, t.state = .rolledBack
  committed : ∀ ts, outcome = some (.committed ts) ↔
    (∀ t ∈ c, t.state ≠ .rolledBack) ∧ root.state = .committed ∧ root.commitTimestamp = some ts ∧
      x = .visible

/-- A walk along the chain of a stranger goes by the root, unless a node is rolled back. -/
theorem byWalk_judges (hs : l.Sound max) (hc : l.Chain writer c) (hm : f.meets c = false)
    (hlen : c.length ≤ f.maxDepth + 1) (hroot : c.getLast? = some root) :
    Judges f.reader root c (f.byWalk c) (f.outcome? c) := by
  obtain ⟨e, he⟩ := hc.effectiveState_ok hs
  have hwalk : f.byWalk c = f.atState e := by
    rw [← decision_of_not_meets hc hm hlen he, decision,
      ownVersion?_eq_none (isFamily_of_not_meets hc hm)]
    rfl
  constructor
  · rw [hwalk]
    exact atState_eq_visible hs hc he hroot
  · rw [outcome?_of_not_meets hm hlen he, ← hc.effectiveState_eq_rolledBack hs, he]
    cases e <;> simp [EffectiveState.resolution?]
  · intro ts
    have hcommitted : effectiveState c = .ok (.committed ts) ↔ _ :=
      hc.effectiveState_eq_committed hs
    simp only [he, hroot, Option.some.injEq, exists_eq_left', Except.ok.injEq] at hcommitted
    calc f.outcome? c = some (.committed ts)
      _ ↔ e = .committed ts ∧ f.byWalk c = .visible := by
        rw [outcome?_of_not_meets hm hlen he, hwalk]
        cases e <;> simp [EffectiveState.resolution?]
      _ ↔ _ := by
        rw [hcommitted, and_assoc, and_assoc]

end

/-! ## Runs -/

/-- In every world that a run reaches, a fresh filter shows an unmarked version of a stranger iff no
node of the chain of the writer is rolled back and the reader sees what the root of that chain
covers. It reports once that the writer is rolled back, or when the root of a version that it shows
was committed, and nothing else. -/
theorem classify_stranger {config : Config} {w₀ w : World} (h₀ : w₀.Fresh) (h : Reach config w₀ w)
    {r u t : Txn} (hr : w.ledger.find? r.id = some u) (hru : r.Becomes u) {writer : TxnId}
    (ht : w.ledger.find? writer = some t) {v : RowVersion} (hw : v.writer = some writer)
    (hv : v.resolution = none) (sink : Option Sink) (maxDepth : Nat) :
    ∃ cr c root, w.ledger.Chain r.id (u :: cr) ∧ w.ledger.Chain writer c ∧
      c.getLast? = some root ∧
      (config.maxAncestorDepth.toNat ≤ maxDepth → c.length ≤ maxDepth + 1 ∧
        (w.ledger.switch.Up → ∃ f s, (load r sink maxDepth).exec w.services = (.ok f, s))) ∧
      ((∀ x ∈ c, x.id ∉ Ledger.ids (u :: cr)) →
        ∀ f s, (load r sink maxDepth).exec w.services = (.ok f, s) →
          w.services.Looks s ∧ ∃ p, Searches (f, s) p ∧
            ((∃ x outcome, (classify v).exec (f, s) = (.ok x, tell v writer outcome p) ∧
                (sink = some .recorder → (tell v writer outcome p).1.noted =
                  (outcome.map (⟨v.key, writer, ·⟩ : Resolution → Notice)).toList) ∧
                (c.length ≤ maxDepth + 1 → Judges r root c x outcome) ∧
                (maxDepth + 1 < c.length → x = .hidden ∧ outcome = none)) ∨
              (classify v).exec (f, s) = (.error (.unavailable .ledger), p) ∧
                ¬ w.ledger.switch.Up)) := by
  have hs := (h.genuine h₀).sound
  obtain ⟨cr, hcr⟩ := hs.chain hr
  obtain ⟨rest, hc⟩ := hs.chain ht
  obtain ⟨root, hroot, -⟩ := hc.effectiveState_eq hs
  refine ⟨cr, t :: rest, root, hcr, hc, hroot, fun hmax => ⟨?_, fun hup => ?_⟩,
    fun hapart f s hl => ?_⟩
  · have hlen := hc.length_le hs
    rw [List.length_cons]
    omega
  · have hlen := hcr.length_le hs
    obtain ⟨f, s, -, -, -, ⟨-, hl⟩ | ⟨hlong, -⟩⟩ := exec_load sink maxDepth
      (hcr.id_head.symm ▸ hcr) hcr.id_head.symm (Txn.parent_of_origin hru.origin).symm hup
    · exact ⟨f, s, hl⟩
    · omega
  · obtain ⟨hreads, hrem, rfl, -, rfl, -⟩ := load_ok hcr hru.origin hl
    obtain ⟨hsink, hnoted, hlooks⟩ := load_untold hl
    have hm := meets_loaded hcr hru.origin hl hapart
    have hchain : (classify v).exec (f, s) = (classifyByChain v writer).exec (f, s) := by
      simp only [classify, hw, hv, Act.exec_bind, Act.exec_get,
        ownVersion?_eq_none (isFamily_of_not_meets hc hm)]
    obtain ⟨p, hsearch, hx | ⟨hx, hoff⟩⟩ :=
      exec_classifyByChain (v := v) (hc.of_txns hreads.txns) hrem
    · refine ⟨hlooks, p, hsearch, .inl ⟨_, _, hchain.trans hx, fun hrec => ?_, fun hlen => ?_,
        fun hlen => ?_⟩⟩
      · rw [noted_tell (by rw [hsearch.filter]; exact hsink.trans hrec), hsearch.outcomes.1, hnoted,
          List.append_nil]
      · exact byWalk_judges hs hc hm hlen hroot
      · have hdeep : ¬ (t :: rest).length ≤ f.maxDepth + 1 := by omega
        exact ⟨if_neg hdeep, if_neg hdeep⟩
    · exact ⟨hlooks, p, hsearch, .inr ⟨hchain.trans hx, fun hup => hoff (hreads.up hup)⟩⟩

/-! ## A writer that its root settles -/

/-- A root that committed over an active child, and another root. -/
def coveredWorld : World := settledWorld.after {} (.beginRoot .snapshot)

theorem reach_coveredWorld : Reach {} World.empty coveredWorld :=
  .tail reach_settledWorld (.call fun t ht => by cases ht)

/-- What the child wrote is shown to the other root, and reported with the time of the commit of the
root. -/
theorem classify_stranger_settled :
    ∃ f s p, (load (.root 4 4 .snapshot) (some .recorder) 64).exec coveredWorld.services =
        (.ok f, s) ∧
      (classify { key := [1], writer := some 2 }).exec (f, s) = (.ok .visible, p) ∧
      p.1.noted = [⟨[1], 2, .committed 3⟩] := by
  have hreader : coveredWorld.ledger.Chain 4 [.root 4 4 .snapshot] := .root (by decide) rfl
  have hwriter : coveredWorld.ledger.Chain 2 [settledChild, settlingRoot] :=
    .child (by decide) rfl (.root (by decide) rfl)
  have hlive : ∀ t ∈ [settledChild, settlingRoot], t.state ≠ .rolledBack := by decide
  obtain ⟨cr, c, root, hcr, hc, hroot, hload, hall⟩ := classify_stranger World.empty_fresh
    reach_coveredWorld (r := .root 4 4 .snapshot) hreader.find?_head (.refl _) hwriter.find?_head
    (v := { key := [1], writer := some 2 }) rfl rfl (some .recorder) 64
  cases hcr.unique hreader
  cases hc.unique hwriter
  cases hroot
  obtain ⟨hlen, hload⟩ := hload (by decide)
  obtain ⟨f, s, hl⟩ := hload fun _ _ => rfl
  obtain ⟨-, p, -, ⟨x, outcome, hx, hnoted, hjudges, -⟩ | ⟨-, hoff⟩⟩ := hall (by decide) f s hl
  · obtain ⟨hvisible, -, hcommitted⟩ := hjudges hlen
    have hvis : x = .visible := hvisible.2 ⟨hlive, rfl, 3, rfl, by decide⟩
    have hout : outcome = some (.committed 3) := (hcommitted 3).2 ⟨hlive, rfl, rfl, hvis⟩
    subst hvis hout
    exact ⟨f, s, _, hl, hx, hnoted rfl⟩
  · exact absurd (fun _ _ => rfl) hoff

end SnapshotFilter

end NestedTxn
