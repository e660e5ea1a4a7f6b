import NestedTxn.Proofs.Lifecycle.Finality
import NestedTxn.Proofs.Lifecycle.Outcomes
import NestedTxn.Proofs.Lifecycle.Outermost

/-!
# Global commit timestamps

* `Above.outermost_eq`: in a sound ledger a commit finds the commit timestamp of the outermost node
  ahead of it, if all of them are committed, else none.
* `Ledger.CommittedThrough l id g`: `id` and all its ancestors are committed, the outermost of them
  at `g`. That lasts (`CommittedThrough.grows`), and then `g` is the effective commit timestamp
  (`CommittedThrough.effectiveState`).
* `Ledger.Honest`: a record with a global commit timestamp is committed through, at that timestamp.
  Every call of the lifecycle keeps that (`Call.run_honest`).
* `Lifecycle.globalTimestamp_lasts`: a commit records a global timestamp iff all ancestors are
  committed, and a global timestamp that is recorded is the effective one from then on.
-/

namespace NestedTxn

namespace Ledger

variable {l l' : Ledger} {max : Nat} {id : TxnId} {t u : Txn} {c : List Txn} {g : Timestamp}

/-- In a sound ledger only roots stand alone. -/
theorem Sound.standsAlone_iff (hs : l.Sound max) (ht : l.find? id = some t) :
    t.standsAlone = true ↔ t.parent = none := by
  cases hp : t.parent with
  | none => simp [Txn.standsAlone, Txn.isRoot, hp]
  | some p => simp [Txn.standsAlone, Txn.isRoot, hp, ((hs id t ht).child p hp).1]

/-- The commit timestamp of the outermost of some nodes, if all of them are committed. -/
def globalAlong (c : List Txn) : Option Timestamp :=
  if ∀ u ∈ c, u.state = .committed then c.getLast?.bind (·.commitTimestamp) else none

theorem globalAlong_eq_some :
    globalAlong c = some g ↔ (∀ u ∈ c, u.state = .committed) ∧
      ∃ r, c.getLast? = some r ∧ r.commitTimestamp = some g := by
  unfold globalAlong
  split <;> simp_all [Option.bind_eq_some_iff]

/-- In a sound ledger the outermost node says when it was committed, if it was. -/
theorem Chain.globalAlong_isSome (h : l.Chain id c) (hs : l.Sound max) :
    (globalAlong c).isSome ↔ ∀ u ∈ c, u.state = .committed := by
  obtain ⟨r, hr, -⟩ := h.effectiveState_eq hs
  have hmem := List.mem_of_getLast? hr
  have hstamp := (hs _ r (h.find?_of_mem hmem)).stamped
  unfold globalAlong
  split
  · next hall => simpa [hr, hstamp.1 (hall r hmem)] using hall
  · next hnot => simpa using hnot

/-- The ancestors are committed iff the rest of the chain is. -/
theorem Chain.ancestors_committed (h : l.Chain id (t :: c)) :
    (∀ a, l.Ancestor id a → l.state? a = some .committed) ↔ ∀ u ∈ c, u.state = .committed := by
  have hstate : ∀ u ∈ c, l.state? u.id = some u.state := fun u hu => by
    rw [state?, h.find?_of_mem (List.mem_cons_of_mem t hu)]
    rfl
  constructor
  · intro hall u hu
    have hu' := hall u.id (h.ancestor_iff.2 (mem_ids.2 ⟨u, hu, rfl⟩))
    rw [hstate u hu] at hu'
    exact Option.some.inj hu'
  · intro hall a ha
    obtain ⟨u, hu, rfl⟩ := mem_ids.1 (h.ancestor_iff.1 ha)
    rw [hstate u hu, hall u hu]

/-- A walk finds what the nodes ahead of it say. -/
theorem Above.outermost_eq {budget : Nat} {next : Option TxnId} (h : l.Above next c)
    (hs : l.Sound max) (hlen : c.length ≤ budget) : l.outermost budget next = globalAlong c := by
  induction c generalizing budget next with
  | nil =>
    cases next with
    | none => cases budget <;> rfl
    | some id =>
      obtain ⟨_, _, hnil, _⟩ := Chain.eq_cons h
      cases hnil
  | cons p c ih =>
    obtain _ | budget := budget
    · cases hlen
    cases next with
    | none => cases h
    | some id =>
      have hp := Chain.find?_head h
      have hup := ih (Chain.above h) (Nat.le_of_succ_le_succ hlen)
      rw [outermost, hp]
      by_cases hc : p.state = .committed
      · by_cases hroot : p.parent = none
        · obtain rfl := Chain.tail_eq_nil h hroot
          simp [globalAlong, hc, (hs.standsAlone_iff hp).2 hroot]
        · -- below the outermost node, the rest of the chain is what counts
          have hlast : (p :: c).getLast? = c.getLast? := by
            obtain ⟨q, hq⟩ := Option.ne_none_iff_exists'.1 hroot
            obtain ⟨v, rest, rfl, _⟩ := (Chain.tail h hq).eq_cons
            exact List.getLast?_cons_cons
          have halone : ¬ p.standsAlone = true := fun ha => hroot ((hs.standsAlone_iff hp).1 ha)
          dsimp only
          rw [if_neg (not_not_intro hc), if_neg halone, hup]
          simp [globalAlong, hc, hlast]
      · simp [globalAlong, hc]

/-- `id` and all its ancestors are committed, the outermost of them at `g`. -/
def CommittedThrough (l : Ledger) (id : TxnId) (g : Timestamp) : Prop :=
  ∃ c, l.Chain id c ∧ globalAlong c = some g

/-- A committed transaction never changes, and neither does a chain of them. -/
theorem CommittedThrough.grows (h : l.CommittedThrough id g) (hg : l.Grows l') :
    l'.CommittedThrough id g := by
  obtain ⟨c, hc, hglobal⟩ := h
  refine ⟨c, hc.of_find? fun t ht htl => ?_, hglobal⟩
  obtain ⟨u, hu, htu⟩ := hg t.id t htl
  rw [hu, htu.final]
  rw [(globalAlong_eq_some.1 hglobal).1 t ht]
  nofun

/-- A transaction that is committed through is so effectively. -/
theorem CommittedThrough.effectiveState (h : l.CommittedThrough id g) (hs : l.Sound max)
    (ht : l.find? id = some t) :
    ∃ c, l.Chain id (t :: c) ∧ NestedTxn.effectiveState (t :: c) = .ok (.committed g) := by
  obtain ⟨c, hc, hglobal⟩ := h
  obtain ⟨t', c, rfl, ht'⟩ := hc.eq_cons
  rw [ht] at ht'
  cases ht'
  obtain ⟨hall, r, hr, hg⟩ := globalAlong_eq_some.1 hglobal
  refine ⟨c, hc, (hc.effectiveState_eq_committed hs).2 ⟨fun u hu => ?_, r, hr, ?_, hg⟩⟩
  · rw [hall u hu]
    nofun
  · exact hall r (List.mem_of_getLast? hr)

/-- A record with a global commit timestamp is committed through, at that timestamp. -/
def Honest (l : Ledger) : Prop :=
  ∀ id t g, l.find? id = some t → t.globalCommitTimestamp = some g → l.CommittedThrough id g

/-- A global timestamp that was there before may be there still. -/
theorem Honest.grows (h : l.Honest) (hg : l.Grows l')
    (hback : ∀ id u g, l'.find? id = some u → u.globalCommitTimestamp = some g →
      l'.CommittedThrough id g ∨ ∃ t, l.find? id = some t ∧ t.globalCommitTimestamp = some g) :
    l'.Honest := by
  intro id u g hu hug
  rcases hback id u g hu hug with hc | ⟨t, ht, htg⟩
  · exact hc
  · exact (h id t g ht htg).grows hg

theorem Honest.of_txns (h : l.Honest) (he : l'.txns = l.txns) : l'.Honest :=
  h.grows (.of_txns he) fun id u _ hu hug => .inr ⟨u, by rwa [find?_congr he] at hu, hug⟩

theorem honest_nil (h : l.txns = []) : l.Honest := by
  intro id t g ht
  simp [find?, h] at ht

/-- A new transaction has no global timestamp. -/
theorem Honest.insert (h : l.Honest) (hf : l.find? t.id = none)
    (ht : t.globalCommitTimestamp = none) : (l.insert t).Honest := by
  refine h.grows (grows_insert hf) fun id u g hu hug => .inr ?_
  rw [find?_insert] at hu
  split at hu
  · cases hu
    rw [ht] at hug
    cases hug
  · exact ⟨u, hu, hug⟩

/-- A changed record has to be committed through if it has a global timestamp. -/
theorem Honest.replace (h : l.Honest) (ht : l.find? t.id = some t) (hu : t.Becomes u)
    (hug : ∀ g, u.globalCommitTimestamp = some g → (l.replace u).CommittedThrough t.id g) :
    (l.replace u).Honest := by
  have hid : u.id = t.id := Txn.id_of_origin hu.origin
  refine h.grows (grows_replace ht hu) fun id v g hv hvg => ?_
  rw [find?_replace, hid] at hv
  split at hv
  · next he =>
    subst he
    rw [ht] at hv
    cases hv
    exact .inl (hug g hvg)
  · exact .inr ⟨v, hv, hvg⟩

/-- When the first node of a chain is finished, the others stay. -/
theorem Chain.replace_head (h : l.Chain id (t :: c)) (hu : u.origin = t.origin) :
    (l.replace u).Chain id (u :: c) := by
  have hid : u.id = id := (Txn.id_of_origin hu).trans h.id_head
  have hhead : (l.replace u).find? id = some u := by
    rw [find?_replace, if_pos hid, h.find?_head]
    rfl
  have hother : ∀ v ∈ c, l.find? v.id = some v → (l.replace u).find? v.id = some v := by
    intro v hv hvl
    have hnd := h.nodup
    rw [ids_cons, List.nodup_cons, h.id_head] at hnd
    rw [find?_replace, if_neg, hvl]
    rintro he
    exact hnd.1 (mem_ids.2 ⟨v, hv, he.symm.trans hid⟩)
  cases h with
  | root _ hn => exact .root hhead (by rw [Txn.parent_of_origin hu, hn])
  | child _ hp hc => exact .child hhead (by rw [Txn.parent_of_origin hu, hp]) (hc.of_find? hother)

end Ledger

namespace Lifecycle

open Services

variable {config : Config} {s s' : Services} {t : Txn} {ts : Timestamp}

/-- What a commit of a copy records. -/
theorem commit_global (hs : s.ledger.Sound config.maxAncestorDepth.toNat) {u : Txn}
    (hu : s.ledger.find? t.id = some u) (htu : t.Becomes u)
    (h : (commit config t).exec s = (.ok ts, s')) :
    ∃ c u', s.ledger.Chain t.id (u :: c) ∧ s'.ledger.Chain t.id (u' :: c) ∧
      u.Becomes u' ∧ u'.state = .committed ∧ u'.commitTimestamp = some ts ∧
      u'.globalCommitTimestamp = Ledger.globalAlong (u' :: c) ∧
      s'.ledger.txns = (s.ledger.replace u').txns := by
  obtain ⟨v, hv, ha, -, hrec, -⟩ := commit_committed h
  rw [hu] at hv
  cases hv
  obtain ⟨c, hc⟩ := hs.chain hu
  have hchain := hc.replace_head (u := u.finish (.committed ts (globalOf config s.ledger t ts)))
    (Txn.origin_finish u _)
  have hchain' : s'.ledger.Chain t.id _ := hchain.of_find? fun v _ hv => by rw [hrec.find?, hv]
  refine ⟨c, _, hc, hchain', .finish ha _, rfl, rfl, ?_, hrec.txns⟩
  have hglobal : globalOf config s.ledger t ts =
      if u.parent = none then some ts else Ledger.globalAlong c := by
    have hparent : t.parent = u.parent := (Txn.parent_of_origin htu.origin).symm
    have halone : t.standsAlone = u.standsAlone := by
      rw [Txn.standsAlone, Txn.standsAlone, Txn.isRoot, Txn.isRoot, hparent,
        Txn.dependent_of_origin htu.origin]
    rw [globalOf, halone, hparent, hc.above.outermost_eq hs (hc.length_le hs)]
    simp only [hs.standsAlone_iff hu]
  change globalOf config s.ledger t ts = _
  rw [hglobal]
  split
  · next hroot =>
    obtain rfl := hc.tail_eq_nil hroot
    rfl
  · next hroot =>
    obtain ⟨p, hp⟩ := Option.ne_none_iff_exists'.1 hroot
    obtain ⟨q, rest, rfl, _⟩ := (hc.tail hp).eq_cons
    simp [Ledger.globalAlong, Txn.finish, List.getLast?_cons_cons]

theorem beginRoot_honest (isolation : Isolation) (h : s.ledger.Honest) :
    ((beginRoot isolation).exec s).2.ledger.Honest := by
  rcases beginRoot_cases isolation s with ⟨e, s', he, hs⟩ | ⟨ts, s', _, hf, he, hs, _⟩ <;> rw [he]
  · exact h.of_txns hs.txns
  · exact (h.insert hf rfl).of_txns hs.txns

theorem beginChild_honest (config : Config) (parent : Txn) (isolation : Option Isolation)
    (additive : Bool) (table : Option Table) (h : s.ledger.Honest) :
    ((beginChild config parent isolation additive table).exec s).2.ledger.Honest := by
  rcases beginChild_cases config parent isolation additive table s with
    ⟨e, s', he, hs⟩ | ⟨ts, d, s', _, hf, _, _, he, hs, _⟩ <;> rw [he]
  · exact h.of_txns hs.txns
  · exact (h.insert hf rfl).of_txns hs.txns

/-- An elevation changes no timestamp. -/
theorem honest_of_regrants (h : s.ledger.Honest) (hs : s.Regrants s') : s'.ledger.Honest := by
  refine h.grows hs.grows fun id u g hu hug => .inr ?_
  obtain ⟨t, ht, hb⟩ := hs.find?_before hu
  refine ⟨t, ht, ?_⟩
  change t.bare.globalCommitTimestamp = some g
  rw [hb]
  exact hug

theorem commit_honest (hs : s.ledger.Sound config.maxAncestorDepth.toNat)
    (ht : ∃ u, s.ledger.find? t.id = some u ∧ t.Becomes u) (h : s.ledger.Honest) :
    ((commit config t).exec s).2.ledger.Honest := by
  obtain ⟨u, hu, htu⟩ := ht
  rcases hx : (commit config t).exec s with ⟨e | ts, s'⟩
  · rcases commit_cases config t s with ⟨e, s₁, he, hrec⟩ | ⟨_, _, _, s₁, _, _, _, _, he, _⟩ <;>
      rw [he] at hx <;> cases hx
    exact h.of_txns hrec.txns
  · obtain ⟨c, u', hc, hc', hbecomes, -, -, hglobal, htxns⟩ := commit_global hs hu htu hx
    rw [← Ledger.id_of_find? hu] at hu
    refine (h.replace hu hbecomes fun g hg => ?_).of_txns htxns
    refine ⟨u' :: c, ?_, by rw [← hglobal, hg]⟩
    rw [hc.id_head]
    exact hc.replace_head hbecomes.origin

theorem rollback_honest (t : Txn) (h : s.ledger.Honest) :
    ((rollback t).exec s).2.ledger.Honest := by
  rcases rollback_cases t s with
    ⟨e, s', he, hs⟩ | ⟨s', he, hs, _⟩ | ⟨u, s', _, hu, ha, he, hs, _⟩ <;> rw [he]
  · exact h.of_txns hs.txns
  · exact h.of_txns hs.txns
  · rw [← Ledger.id_of_find? hu] at hu
    exact (h.replace hu (.finish ha _) fun g hg => by cases hg).of_txns hs.txns

/-- Every call with copies of records keeps the global timestamps honest. -/
theorem Call.run_honest {c : Call} (hs : s.ledger.Sound config.maxAncestorDepth.toNat)
    (hc : ∀ t ∈ c.subjects, ∃ u, s.ledger.find? t.id = some u ∧ t.Becomes u)
    (h : s.ledger.Honest) : ((c.run config).exec s).2.ledger.Honest := by
  cases c with
  | beginRoot isolation =>
    rw [run, Act.exec_map]
    exact beginRoot_honest isolation h
  | beginChild parent isolation additive table =>
    rw [run, Act.exec_map]
    exact beginChild_honest config parent isolation additive table h
  | elevate t table =>
    rw [run, Act.exec_map]
    exact honest_of_regrants h (elevate_regrants config t table s)
  | elevateUnder t table parent =>
    rw [run, Act.exec_map]
    exact honest_of_regrants h (elevateUnder_regrants config t table parent s)
  | commit t =>
    rw [run, Act.exec_map]
    exact commit_honest hs (hc t (List.mem_singleton_self t)) h
  | rollback t =>
    rw [run, Act.exec_map]
    exact rollback_honest t h

variable {w₀ w : World}

/-- In every run the global timestamps are honest. -/
theorem Reach.honest (h₀ : w₀.Fresh) (h : Reach config w₀ w) : w.ledger.Honest := by
  induction h with
  | refl => exact Ledger.honest_nil h₀.txns
  | tail hr step ih =>
    have hw := Reach.genuine hr h₀
    cases step with
    | copy _ => exact ih
    | call hc => exact Call.run_honest hw.sound (fun t ht => hw.known t (hc t ht)) ih

/-- In every run: a commit that succeeds records a global commit timestamp iff all ancestors of the
transaction are recorded as committed by then. And a global commit timestamp that is recorded is the
effective commit timestamp, now and whatever happens later. -/
theorem globalTimestamp_lasts (h₀ : w₀.Fresh) (h : Reach config w₀ w) :
    (∀ t ∈ w.known, ∀ ts s', (commit config t).exec w.services = (.ok ts, s') →
      ∃ u, s'.ledger.find? t.id = some u ∧ u.commitTimestamp = some ts ∧
        (u.globalCommitTimestamp.isSome ↔
          ∀ a, w.ledger.Ancestor t.id a → w.ledger.state? a = some .committed)) ∧
    ∀ id t g, w.ledger.find? id = some t → t.globalCommitTimestamp = some g →
      ∀ w', Reach config w w' →
        ∃ c, w'.ledger.Chain id (t :: c) ∧ effectiveState (t :: c) = .ok (.committed g) := by
  have hw := h.genuine h₀
  refine ⟨fun t ht ts s' hx => ?_, fun id t g ht hg w' h' => ?_⟩
  · obtain ⟨u, hu, htu⟩ := hw.known t ht
    obtain ⟨c, u', hc, hc', -, hstate, hts, hglobal, -⟩ := commit_global hw.sound hu htu hx
    refine ⟨u', hc'.find?_head, hts, ?_⟩
    have hsound := commit_sound config t hw.sound
    rw [hx] at hsound
    rw [hglobal, hc'.globalAlong_isSome hsound, List.forall_mem_cons, and_iff_right hstate]
    exact hc.ancestors_committed.symm
  · have hthrough := (h.honest h₀ id t g ht hg).grows h'.grows
    -- a committed record is as it was
    obtain ⟨u, hu, htu⟩ := h'.grows id t ht
    obtain ⟨c, hc, hglobal⟩ := h.honest h₀ id t g ht hg
    obtain ⟨v, rest, rfl, hv⟩ := hc.eq_cons
    rw [ht] at hv
    cases hv
    obtain rfl := htu.final (by
      rw [(Ledger.globalAlong_eq_some.1 hglobal).1 t List.mem_cons_self]
      nofun)
    exact hthrough.effectiveState ((h.trans h').genuine h₀).sound hu

/-! ## A settled child that is committed -/

/-- The world after the settled child was committed. -/
def confirmedWorld : World := settledWorld.after {} (.commit settledChild)

theorem reach_confirmedWorld : Reach {} settledWorld confirmedWorld := by
  refine .single (.call fun t ht => ?_)
  obtain rfl := List.mem_singleton.1 ht
  decide

/-- The general rule at this run: the child takes the timestamp of its parent. -/
theorem globalTimestamp_lasts_settled :
    (∃ u, confirmedWorld.ledger.find? 2 = some u ∧ u.commitTimestamp = some 4 ∧
      (u.globalCommitTimestamp.isSome ↔
        ∀ a, settledWorld.ledger.Ancestor 2 a → settledWorld.ledger.state? a = some .committed)) ∧
    ∃ c, confirmedWorld.ledger.Chain 2 (settledChild.finish (.committed 4 (some 3)) :: c) ∧
      effectiveState (settledChild.finish (.committed 4 (some 3)) :: c) = .ok (.committed 3) :=
  ⟨(globalTimestamp_lasts World.empty_fresh reach_settledWorld).1 settledChild (by decide) 4 _ rfl,
    (globalTimestamp_lasts World.empty_fresh
      (reach_settledWorld.trans reach_confirmedWorld)).2 2 _ 3 (by decide) rfl _ .refl⟩

end Lifecycle

end NestedTxn
