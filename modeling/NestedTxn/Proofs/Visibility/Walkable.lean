import NestedTxn.Proofs.Lifecycle.Failures
import NestedTxn.Proofs.Lifecycle.Runs
import NestedTxn.Proofs.Visibility.Walk

/-!
# Every chain can be walked

Four tests bound a chain: the depth that `beginChild` reads off the parent, and the budgets of the
walks of a filter, of an elevation and of a commit. They fit together:

* `SnapshotFilter.exists_load`, `SnapshotFilter.exists_stateOf`: in a sound ledger a filter finds
  the ancestors of every record, and its effective state, if it may walk as far as transactions may
  nest.
* `Lifecycle.LookedUp`: a filter may be as old as the run. What it remembers is still recorded.
* `Lifecycle.Unwalkable`: the errors by which an operation says that a chain is broken, cyclic or
  too long. `elevate`, `elevateUnder` and `commit` do not fail so on a record of a sound ledger.
* `Lifecycle.Walkable`, `Lifecycle.recorded_walkable`: all this in every run of the lifecycle.
-/

namespace NestedTxn

namespace SnapshotFilter

open Services

variable {s : Services} {f : SnapshotFilter} {max : Nat} {r t : Txn} {c : List Txn}

section

variable (hs : s.ledger.Sound max) (hc : s.ledger.Chain t.id (t :: c)) (hup : s.ledger.switch.Up)
include hs hc hup

/-- A filter for a record, or for a copy of it, finds the ancestors. -/
theorem exists_load (hr : t.origin = r.origin) (sink : Option Sink) :
    ∃ f s', (load r sink max).exec s = (.ok f, s') ∧ f.reader = r ∧ f.ancestors = c := by
  have hlen := hc.length_le hs
  obtain ⟨f, s', -, -, hf, ⟨-, hl⟩ | ⟨hlong, -⟩⟩ :=
    exec_load sink max hc (Txn.id_of_origin hr).symm (Txn.parent_of_origin hr).symm hup
  · exact ⟨f, s', hl, by rw [hf], by rw [hf]⟩
  · omega

/-- Every record has an effective state, and a filter finds it. -/
theorem exists_stateOf (hmax : f.maxDepth = max) (hrem : f.Remembers s.ledger) :
    ∃ e p, effectiveState (t :: c) = .ok e ∧ (stateOf t.id).exec (f, s) = (.ok e, p) := by
  have hlen := hc.length_le hs
  obtain ⟨e, he⟩ := hc.effectiveState_ok hs
  obtain ⟨x, y, p, hw, -, hy, ⟨-, rfl⟩ | ⟨hlong, -⟩⟩ := writerChain_answers hc hrem
  · rw [hy.eq hup] at hw
    refine ⟨e, p, he, ?_⟩
    rw [stateOf, Act.exec_bind_ok hw, he]
    rfl
  · simp only [List.length_cons] at hlong
    omega

end

end SnapshotFilter

namespace Lifecycle

open Services

/-- What the filter holds in its memo was terminal when it was looked up, at some time before
`w`. -/
def LookedUp (config : Config) (w : World) (f : SnapshotFilter) : Prop :=
  ∀ u ∈ f.memo, u.state ≠ .active ∧ ∃ w₁, Reach config w₁ w ∧ w₁.ledger.find? u.id = some u

/-- Terminal records stay as they are, so that the memo still holds records. -/
theorem LookedUp.remembers {config : Config} {w : World} {f : SnapshotFilter}
    (h : LookedUp config w f) : f.Remembers w.ledger := by
  intro u hu
  obtain ⟨hterminal, w₁, hreach, hfound⟩ := h u hu
  obtain ⟨v, hv, huv⟩ := hreach.grows u.id u hfound
  rw [hv, huv.final hterminal]

/-- A chain is cyclic or too long, or one of its nodes is not recorded. -/
def Unwalkable (e : TxnError) : Prop :=
  (∃ fault, e = .malformedAncestry fault) ∨ ∃ id, e = .notFound id

/-- A transaction that ended, or a service that does not answer, says nothing about a chain. -/
theorem not_unwalkable {e : TxnError} (h : e.EndedAlready) : ¬ Unwalkable e := by
  rcases h with ⟨o, rfl⟩ | ⟨id, state, rfl⟩
  · rintro (⟨_, h⟩ | ⟨_, h⟩) <;> cases h
  · rintro (⟨_, h⟩ | ⟨_, h⟩) <;> cases h

variable {config : Config} {s : Services} {t u : Txn}

section

variable (hs : s.ledger.Sound config.maxAncestorDepth.toNat) (hu : s.ledger.find? t.id = some u)
  (ho : u.origin = t.origin)
include hs hu ho

theorem commit_walks :
    Act.FailsWith (fun e => ¬ Unwalkable e) (commit config t) s := by
  refine (commit_fails hs hu ho).mono fun e he => not_unwalkable ?_
  rcases he with he | ⟨state, -, -, rfl⟩
  · exact he.endedAlready
  · exact .inr ⟨_, _, rfl⟩

theorem elevate_walks (table : Table) :
    Act.FailsWith (fun e => ¬ Unwalkable e) (elevate config t table) s :=
  (elevate_fails hs hu ho).mono fun _ => not_unwalkable

theorem elevateUnder_walks (table : Table) (parent : Option Txn) :
    Act.FailsWith (fun e => ¬ Unwalkable e) (elevateUnder config t table parent) s :=
  (elevateUnder_fails hs hu ho parent).mono fun _ => not_unwalkable

end

/-- The chain of record `t` can be walked: `c` are its ancestors, nearest first. -/
structure Walkable (config : Config) (w : World) (t : Txn) (c : List Txn) : Prop where
  chain : w.ledger.Chain t.id (t :: c)
  recorded : ∀ a, w.ledger.Ancestor t.id a → ∃ u, w.ledger.find? a = some u
  acyclic : ¬ w.ledger.Ancestor t.id t.id
  /-- It is as deep as it has ancestors. -/
  depth : {a | w.ledger.Ancestor t.id a}.encard = t.depth.toNat
  shallow : t.depth ≤ config.maxAncestorDepth
  /-- A filter that was loaded at any time finds the effective state of the chain. -/
  found : w.ledger.switch.Up → ∀ f : SnapshotFilter,
    f.maxDepth = config.maxAncestorDepth.toNat → LookedUp config w f →
      ∃ e p, effectiveState (t :: c) = .ok e ∧
        (SnapshotFilter.stateOf t.id).exec (f, w.services) = (.ok e, p)
  /-- A filter for the record, or for a copy of it that was handed out, gets the ancestors. -/
  loads : w.ledger.switch.Up → ∀ v, v = t ∨ v ∈ w.known ∧ v.id = t.id → ∀ sink,
    ∃ f s, (SnapshotFilter.load v sink config.maxAncestorDepth.toNat).exec w.services = (.ok f, s) ∧
      f.reader = v ∧ f.ancestors = c
  commits : ∀ v, v = t ∨ v ∈ w.known ∧ v.id = t.id →
    Act.FailsWith (fun e => ¬ Unwalkable e) (commit config v) w.services
  elevates : ∀ v, v = t ∨ v ∈ w.known ∧ v.id = t.id → ∀ table,
    Act.FailsWith (fun e => ¬ Unwalkable e) (elevate config v table) w.services
  elevatesUnder : ∀ v, v = t ∨ v ∈ w.known ∧ v.id = t.id → ∀ table parent,
    Act.FailsWith (fun e => ¬ Unwalkable e) (elevateUnder config v table parent) w.services

/-- In every run the ancestors of a record are recorded, it is not among them, and it is as deep as
it has ancestors, but not deeper than the limit. So while the ledger answers, a filter with that
limit loads for the record, and for every copy of it that was handed out, and holds its ancestors;
a filter loaded at any time finds its effective state, which is that of its chain; and no elevation
and no commit of it says that its chain cannot be walked. -/
theorem recorded_walkable {w₀ w : World} (h₀ : w₀.Fresh) (h : Reach config w₀ w) {id : TxnId}
    {t : Txn} (ht : w.ledger.find? id = some t) : t.id = id ∧ ∃ c, Walkable config w t c := by
  have hw := h.genuine h₀
  have hs := hw.sound
  obtain rfl := Ledger.id_of_find? ht
  obtain ⟨c, hc⟩ := hs.chain ht
  -- a copy has the origin of the record
  have hcopy : ∀ v, v = t ∨ v ∈ w.known ∧ v.id = t.id →
      w.ledger.find? v.id = some t ∧ t.origin = v.origin := by
    rintro v (rfl | ⟨hk, hid⟩)
    · exact ⟨ht, rfl⟩
    · obtain ⟨u, hu, hvu⟩ := hw.known v hk
      rw [hid, ht] at hu
      cases hu
      exact ⟨hid ▸ ht, hvu.origin⟩
  refine ⟨rfl, c, hc, fun a => hs.recorded ht, hs.not_ancestor_self ht, hs.encard_ancestors ht,
    UInt64.le_iff_toNat_le.2 (hs _ t ht).shallow, fun hup f hmax hmemo => ?_,
    fun hup v hv sink => ?_, fun v hv => ?_, fun v hv table => ?_, fun v hv table parent => ?_⟩
  · exact SnapshotFilter.exists_stateOf hs hc hup hmax hmemo.remembers
  · exact SnapshotFilter.exists_load hs hc hup (hcopy v hv).2 sink
  · exact commit_walks hs (hcopy v hv).1 (hcopy v hv).2
  · exact elevate_walks hs (hcopy v hv).1 (hcopy v hv).2 table
  · exact elevateUnder_walks hs (hcopy v hv).1 (hcopy v hv).2 table parent

/-! ## The deepest transaction -/

/-- Transactions may nest one level deep. -/
def shallowConfig : Config := { maxAncestorDepth := 1 }

/-- A root and a child of it, which may have no child. -/
def deepestWorld : World :=
  (World.empty.after shallowConfig (.beginRoot .snapshot)).after shallowConfig
    (.beginChild (.root 1 1 .snapshot) none false none)

theorem reach_deepestWorld : Reach shallowConfig World.empty deepestWorld := by
  refine .tail (.tail .refl (.call ?_)) (.call ?_)
  · intro t ht
    cases ht
  · intro t ht
    obtain rfl := List.mem_singleton.1 ht
    decide

/-- The general rule at the deepest transaction: a filter with the limit 1 loads for it, and holds
the root. -/
theorem recorded_walkable_deepest :
    ∃ c f s, (SnapshotFilter.load (.child 2 2 (.root 1 1 .snapshot) .snapshot false none) none
      1).exec deepestWorld.services = (.ok f, s) ∧ f.ancestors = c ∧
        c.map (·.id) = [1] := by
  have hfound : deepestWorld.ledger.find? 2 =
      some (.child 2 2 (.root 1 1 .snapshot) .snapshot false none) := by decide
  obtain ⟨-, c, hwalk⟩ := recorded_walkable World.empty_fresh reach_deepestWorld hfound
  obtain ⟨f, s, hload, -, hancestors⟩ := hwalk.loads (fun _ _ => rfl) _ (.inl rfl) none
  refine ⟨c, f, s, hload, hancestors, ?_⟩
  rw [← hancestors]
  have hids : (((SnapshotFilter.load (.child 2 2 (.root 1 1 .snapshot) .snapshot false none) none
      shallowConfig.maxAncestorDepth.toNat).exec deepestWorld.services).1.map fun f =>
        f.ancestors.map (·.id)) = .ok [1] := by
    decide +kernel
  rw [hload] at hids
  exact Except.ok.inj hids

end Lifecycle

end NestedTxn
