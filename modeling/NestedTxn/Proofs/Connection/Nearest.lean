import NestedTxn.Proofs.Connection.Closed
import NestedTxn.Proofs.Connection.Repeating

/-!
# Releasing and rolling back from the nearest savepoint up

A release and a rollback act on the entries from the nearest one of the name up, `gone`, and on no
other record. Those `below` stay.

* `unwind_served`: while the services serve, the loop ends `gone` and leaves `below`.
  `unwind_dated`: it commits the `k`-th entry from the top at the `k`-th reading to come.
* `Ledger.Gains`: exactly the transactions of the given entries were newly recorded.
  `setSavepoint_renews`: setting a savepoint adds `renewed` on top of the stack, and no other record.
* `Connection.Releases`, `Connection.Resets`: what a release and a rollback to a savepoint come to.
  `nearest_up`: so it is in every run.
-/

namespace NestedTxn

namespace Ledger

variable {l l' l'' : Ledger} {fresh : List Savepoint}

/-- From `l` to `l'` exactly the transactions of the entries `fresh` were newly recorded. -/
structure Gains (l : Ledger) (fresh : List Savepoint) (l' : Ledger) : Prop where
  begun : ∀ e ∈ fresh, l.find? e.txn.id = none ∧ l'.find? e.txn.id = some e.txn
  others : ∀ id ∉ fresh.map (·.txn.id), l'.find? id = l.find? id

theorem gains_of_txns (h : l'.txns = l.txns) : l.Gains [] l' :=
  ⟨fun _ he => absurd he List.not_mem_nil, fun id _ => find?_congr h id⟩

theorem Gains.insert {t : Txn} (h : l.Gains fresh l') (hf : l'.find? t.id = none)
    (ht : l''.txns = (l'.insert t).txns) (name : String) : l.Gains (⟨name, t⟩ :: fresh) l'' where
  begun e he := by
    rw [find?_congr ht, find?_insert]
    rcases List.mem_cons.1 he with rfl | he
    · have hnew : l.find? t.id = none := by
        by_cases hid : t.id ∈ fresh.map (·.txn.id)
        · obtain ⟨d, hd, heq⟩ := List.mem_map.1 hid
          exact heq ▸ (h.begun d hd).1
        · exact (h.others _ hid).symm.trans hf
      exact ⟨hnew, if_pos rfl⟩
    · obtain ⟨hnew, hfound⟩ := h.begun e he
      refine ⟨hnew, ?_⟩
      rw [if_neg, hfound]
      rintro heq
      rw [heq, hfound] at hf
      cases hf
  others id hid := by
    rw [List.map_cons, List.mem_cons, not_or] at hid
    rw [find?_congr ht, find?_insert, if_neg (Ne.symm hid.1), h.others id hid.2]

end Ledger

namespace Connection

open Ledger Services

variable {config : Config} {fate : Fate} {p q : Connection × Services}
  {gone below rest : List Savepoint} {e : Savepoint} {name : String} {n : Nat}

/-! ## Ending the upper entries -/

/-- While the services serve, nothing halts. -/
theorem Unwinds.served {left : Connection} {r : Except TxnError Unit × Connection × Services}
    (h : Unwinds config fate p n left r) (hserves : p.2.Serves p.1.depth) :
    ∃ s', r = (.ok (), left, s') ∧
      Ended config fate p.2 ((p.1.stack.rdrop n).map (·.txn.id)) s' := by
  cases h with
  | done hended => exact ⟨_, rfl, hended⟩
  | halted _ _ _ hns _ => exact absurd hserves hns

/-- The leaf is committed at the next reading. -/
theorem dropTop_committed (hst : p.1.stack = e :: rest)
    (h : (dropTop (Fate.commit.finish config)).exec p = (.ok (), q)) :
    q.1 = { p.1 with stack := rest } ∧ q.2.clock = p.2.ticked.clock ∧
      ∃ u ts, p.2.clock.reading p.2.clock.taken = some ts ∧
        q.2.ledger.find? e.txn.id = some u ∧ u.commitTimestamp = some ts := by
  rw [dropTop, Act.exec_bind_ok (exec_leaf_cons hst), Act.exec_bind, Act.exec_onSnd, Fate.finish,
    Act.exec_discard] at h
  rcases hx : (Lifecycle.commit config e.txn).exec p.2 with ⟨err | ts, s'⟩ <;> rw [hx] at h
  · cases h
  · obtain ⟨u, hu, _, ⟨i, hle, hlt, hi⟩, hr, hc⟩ := Lifecycle.commit_committed hx
    cases h
    have htaken : i = p.2.clock.taken := by
      rw [hc] at hlt
      exact Nat.le_antisymm (Nat.lt_succ_iff.1 hlt) hle
    refine ⟨by simp [pop, hst], hc,
      u.finish (.committed ts (Lifecycle.globalOf config p.2.ledger e.txn ts)), ts, htaken ▸ hi, ?_,
      rfl⟩
    rw [hr.find?, find?_replace, Txn.finish_id, id_of_find? hu, if_pos rfl, hu]
    rfl

section

variable (hp : p.1.Perched p.2.ledger) (hl : p.1.Linked)
  (hs : p.2.ledger.Sound config.maxAncestorDepth.toNat) (hst : p.1.stack = gone ++ below)
include hp hl hs hst

theorem unwind_split :
    Unwinds config fate p below.length { p.1 with stack := below }
      ((unwind (fate.finish config) gone.length).exec p) := by
  have hdepth : below.length + gone.length = p.1.depth := by
    rw [depth, hst, List.length_append, Nat.add_comm]
  have hkeep : p.1.stack.rtake below.length = below := by
    simp [hst, List.rtake]
  have hunwinds : Unwinds config fate p below.length _ _ := unwind_unwinds hp hl hs hdepth
  rwa [hkeep] at hunwinds

/-- The loop ends the upper entries. -/
theorem unwind_served (fate : Fate) (hserves : p.2.Serves p.1.depth) :
    ∃ s', (unwind (fate.finish config) gone.length).exec p =
        (.ok (), { p.1 with stack := below }, s') ∧
      Ended config fate p.2 (gone.map (·.txn.id)) s' := by
  have hgone : p.1.stack.rdrop below.length = gone := by
    simp [hst, List.rdrop]
  obtain ⟨s', hx, hended⟩ := (unwind_split hp hl hs hst).served hserves
  exact ⟨s', hx, hgone ▸ hended⟩

/-- So does an unwinding to the savepoint that they end with. -/
theorem unwindTo_served (fate : Fate) (hbelow : below? name p.1.stack = some below.length)
    (hserves : p.2.Serves p.1.depth) :
    ∃ s', (unwindTo name (fate.finish config)).exec p =
        (.ok (), settle { p.1 with stack := below }, s') ∧
      (unwind (fate.finish config) gone.length).exec p =
        (.ok (), { p.1 with stack := below }, s') ∧
      Ended config fate p.2 (gone.map (·.txn.id)) s' := by
  obtain ⟨s', hx, hended⟩ := unwind_served hp hl hs hst fate hserves
  refine ⟨s', ?_, hx, hended⟩
  have hcount : p.1.depth - below.length = gone.length := by
    rw [depth, hst, List.length_append, Nat.add_sub_cancel]
  rw [unwindTo_found (hp.active_of_below? hbelow) hbelow, hcount, Act.exec_bind_ok hx]
  rfl

/-- It commits the entries one reading after the other. -/
theorem unwind_dated (h : (unwind (Fate.commit.finish config) gone.length).exec p = (.ok (), q))
    {k : Nat} (he : gone[k]? = some e) :
    ∃ u ts, p.2.clock.reading (p.2.clock.taken + k) = some ts ∧
      q.2.ledger.find? e.txn.id = some u ∧ u.commitTimestamp = some ts := by
  induction gone generalizing p k with
  | nil => cases he
  | cons d gone ih =>
    rw [List.length_cons, unwind_succ] at h
    obtain ⟨_, r, hd, h⟩ := Act.exec_bind_eq_ok h
    obtain ⟨hr, hclock, u, ts, hts, hu, hut⟩ := dropTop_committed hst hd
    obtain ⟨hp', hs'⟩ := hp.after hs (dropTop_shifts (Fate.commit.finish_drops config)) hd
    have hst' : r.1.stack = gone ++ below := congrArg Connection.stack hr
    have hl' : r.1.Linked := by
      rw [Linked, hst] at hl
      rw [Linked, hst']
      exact hl.tail
    cases k with
    | zero =>
      obtain rfl : d = e := Option.some.inj he
      refine ⟨u, ts, hts, ?_, hut⟩
      -- the entries below are other ones
      have hapart : d.txn.id ∉ gone.map (·.txn.id) := by
        have hnodup := hp.nodup
        rw [ids, hst, List.cons_append, List.map_cons, List.map_append, List.nodup_cons] at hnodup
        exact fun hmem => hnodup.1 (List.mem_append_left _ hmem)
      have hgone : r.1.stack.rdrop below.length = gone := by simp [hst', List.rdrop]
      have hrest : Unwinds config .commit r below.length _ _ := unwind_split hp' hl' hs' hst'
      rw [h] at hrest
      cases hrest with
      | done hended => exact (hended.others _ (hgone.symm ▸ hapart)).trans hu
    | succ k =>
      obtain ⟨v, ts', hts', hv, hvt⟩ := ih hp' hl' hs' hst' h he
      rw [hclock] at hts'
      have hlater : p.2.clock.taken + (k + 1) = p.2.ticked.clock.taken + k := by
        change _ = p.2.clock.taken + 1 + k
        omega
      exact ⟨v, ts', hlater ▸ hts', hv, hvt⟩

end

/-! ## Setting a savepoint -/

/-- The entries that come on top of a stack with a savepoint `name`: a child of its top entry, or of
a new root `own` if there is none. -/
def renewed (config : Config) (own name : String) (a b : Timestamp) :
    List Savepoint → List Savepoint
  | [] =>
    let root : Txn := .root a a config.defaultIsolation
    [⟨name, .child b b root root.isolation false none⟩, ⟨own, root⟩]
  | e :: _ => [⟨name, .child a a e.txn e.txn.isolation false none⟩]

theorem heeded_stack (c : Connection) (name : String) (on : Bool) :
    (c.heeded name on).stack = c.stack := by
  unfold heeded
  split <;> rfl

theorem heeded_phase (c : Connection) (name : String) (on : Bool) :
    (c.heeded name on).phase = c.phase := by
  unfold heeded
  split <;> rfl

theorem heeded_name (c : Connection) (name : String) (on : Bool) :
    (c.heeded name on).name = c.name := by
  unfold heeded
  split <;> rfl

/-- A savepoint is set once the suppression has heeded its name. -/
theorem exec_setSavepoint_heeded {r : Connection × Services} (hsup : p.1.suppressed = false)
    (ha : (ensureActive config).exec (p.1.heeded name true,
      p.2.reported (.connection (p.1.heeded name true) false .setSavepoint name)) = (.ok (), q))
    (hc : (pushChild config name).exec q = (.ok (), r)) :
    (setSavepoint config name).exec p =
      (.ok r.1.depth, r.1, r.2.reported (.connection r.1 true .setSavepoint name)) := by
  have hheed : (heed name true).exec p = (.ok (), p.1.heeded name true, p.2) := by
    unfold heed heeded
    split <;> rfl
  rw [setSavepoint_eq, Act.exec_bind_ok (Act.exec_get p), if_neg (by simp [hsup]),
    Act.exec_bind_ok hheed, Act.exec_bind_ok (exec_trace _ _ _ _), Act.exec_bind_ok ha,
    Act.exec_bind_ok hc]
  rfl

/-- While the services work, a savepoint is set, and nothing else changes. -/
theorem setSavepoint_renews (hrests : p.1.Rests) (hp : p.1.Perched p.2.ledger)
    (hclosed : p.1.phase ≠ .closed) (hsup : p.1.suppressed = false)
    (hd : ∀ e ∈ p.1.stack.head?, e.txn.depth < config.maxAncestorDepth)
    (hmax : 0 < config.maxAncestorDepth) (hw : p.2.Works) {a b : Timestamp}
    (ha : p.2.clock.reading p.2.clock.taken = some a)
    (hb : p.2.clock.reading (p.2.clock.taken + 1) = some b) (name : String) :
    ∃ s', (setSavepoint config name).exec p =
        (.ok (max p.1.depth 1 + 1), { p.1.heeded name true with
          phase := .active
          stack := renewed config p.1.name name a b p.1.stack ++ p.1.stack }, s') ∧
      p.2.ledger.Gains (renewed config p.1.name name a b p.1.stack) s'.ledger := by
  let c : Connection := p.1.heeded name true
  let p₁ : Connection × Services := (c, p.2.reported (.connection c false .setSavepoint name))
  have hst₁ : c.stack = p.1.stack := heeded_stack p.1 name true
  have hname₁ : c.name = p.1.name := heeded_name p.1 name true
  have hfa : p.2.ledger.find? a = none := (hw.unused 0 (by decide) a ha).1
  cases hph : p.1.phase with
  | closed => exact absurd hph hclosed
  | active =>
    have hph₁ : c.phase = .active := (heeded_phase p.1 name true).trans hph
    obtain ⟨e, rest, hst⟩ := List.exists_cons_of_ne_nil (hrests hph)
    let t : Txn := .child a a e.txn e.txn.isolation false none
    obtain ⟨s', hx, hr, _⟩ := exec_pushChild_leaf (p := p₁) (hst₁.trans hst)
      (hp.active e (by simp [hst])) (hd e (by simp [hst])) hw.up ha hfa name
    have hset := exec_setSavepoint_heeded hsup (exec_ensureActive_active (p := p₁) hph₁) hx
    have hpushed : c.push name t =
        { c with phase := .active, stack := [⟨name, t⟩] ++ p.1.stack } := by
      rw [push, hst₁, ← hph₁]
      rfl
    have hdepth : (c.push name t).depth = max p.1.depth 1 + 1 := by
      simp [depth, push, hst₁, hst]
    rw [hdepth] at hset
    rw [show renewed config p.1.name name a b p.1.stack = [⟨name, t⟩] by rw [hst]; rfl, ← hpushed]
    exact ⟨_, hset, Gains.insert (gains_of_txns rfl) hfa hr.txns name⟩
  | idle =>
    have hph₁ : c.phase = .idle := (heeded_phase p.1 name true).trans hph
    have hst : p.1.stack = [] := hp.idle (by simp [hph])
    let root : Txn := .root a a config.defaultIsolation
    let t : Txn := .child b b root root.isolation false none
    obtain ⟨s₁, hx₁, hr₁, hc₁⟩ := exec_ensureActive_idle (p := p₁) config hph₁ hw.up ha hfa
    have hu₁ : s₁.Unused 1 := Unused.insert (s := p₁.2) (t := root) hw.unused ha hr₁ hc₁
    have hb₁ : s₁.clock.reading s₁.clock.taken = some b := by
      rw [hc₁]
      exact hb
    have hfb : s₁.ledger.find? b = none := hu₁.next (by decide) b hb₁
    let active : Connection := { c.push c.name root with phase := .active }
    obtain ⟨s₂, hx₂, hr₂, _⟩ := exec_pushChild_leaf (p := (active, s₁)) rfl rfl hmax
      (hr₁.up hw.up) hb₁ hfb name
    have hset := exec_setSavepoint_heeded hsup hx₁ hx₂
    have hpushed : active.push name t =
        { c with phase := .active, stack := [⟨name, t⟩, ⟨p.1.name, root⟩] ++ p.1.stack } := by
      simp only [active, push, hst₁, hst, hname₁]
      rfl
    have hdepth : (active.push name t).depth = max p.1.depth 1 + 1 := by
      simp [active, depth, push, hst₁, hst]
    rw [hdepth] at hset
    rw [show renewed config p.1.name name a b p.1.stack = [⟨name, t⟩, ⟨p.1.name, root⟩] by
      rw [hst]; rfl, ← hpushed]
    exact ⟨_, hset,
      Gains.insert (Gains.insert (gains_of_txns rfl) hfa hr₁.txns p.1.name) hfb hr₂.txns name⟩

/-! ## The calls -/

/-- By the records `l` both entries are committed, `e` before `d`. -/
def CommittedBefore (l : Ledger) (e d : Savepoint) : Prop :=
  ∃ u v a b, l.find? e.txn.id = some u ∧ l.find? d.txn.id = some v ∧ u.commitTimestamp = some a ∧
    v.commitTimestamp = some b ∧ a < b

/-- What a release comes to that ends the entries `gone` and leaves those `below`. -/
structure Releases (config : Config) (gone below : List Savepoint) (p : Connection × Services)
    (r : Except TxnError Nat × Connection × Services) : Prop where
  answer : r.1 = .ok below.length
  /-- A connection without entries is idle. -/
  connection : r.2.1 = settle { p.1 with stack := below }
  /-- Exactly the entries `gone` are committed, and no other record changes. -/
  ended : Ended config .commit p.2 (gone.map (·.txn.id)) r.2.2
  /-- Upper entries are committed first. -/
  dated : p.2.clock.Rises p.2.clock.taken (p.2.clock.taken + gone.length) →
    gone.Pairwise (CommittedBefore r.2.2.ledger)

/-- What a rollback to the savepoint `name` comes to that ends the entries `gone`, leaves those
`below` and sets the entries `fresh`. -/
structure Resets (name : String) (gone fresh below : List Savepoint) (p : Connection × Services)
    (r : Except TxnError Nat × Connection × Services) : Prop where
  answer : r.1 = .ok (max below.length 1 + 1)
  connection : r.2.1 = { p.1.heeded name true with stack := fresh ++ below }
  /-- The entries `gone` are rolled back. -/
  undone : ∀ e ∈ gone, ∃ v, p.2.ledger.find? e.txn.id = some v ∧ v.state = .active ∧
    r.2.2.ledger.find? e.txn.id = some (v.finish .rolledBack)
  /-- The entries `fresh` are newly recorded. -/
  begun : ∀ e ∈ fresh, p.2.ledger.find? e.txn.id = none ∧
    r.2.2.ledger.find? e.txn.id = some e.txn
  others : ∀ id ∉ gone.map (·.txn.id), id ∉ fresh.map (·.txn.id) →
    r.2.2.ledger.find? id = p.2.ledger.find? id

section

variable (hp : p.1.Perched p.2.ledger) (hl : p.1.Linked)
  (hs : p.2.ledger.Sound config.maxAncestorDepth.toNat) (hsup : p.1.suppressed = false)
  (hst : p.1.stack = gone ++ below) (hbelow : below? name p.1.stack = some below.length)
include hp hl hs hsup hst hbelow

/-- While the services serve, a release ends the upper entries. -/
theorem releaseSavepoint_releases (hserves : p.2.Serves p.1.depth) :
    Releases config gone below p ((releaseSavepoint config name).exec p) := by
  let left : Connection := settle { p.1 with stack := below }
  let p₁ : Connection × Services :=
    (p.1, p.2.reported (.connection p.1 false .releaseSavepoint name))
  obtain ⟨s', hto, hx, hended⟩ := unwindTo_served (p := p₁) hp hl hs hst .commit hbelow
    (hserves.reported _)
  have hexec : (releaseSavepoint config name).exec p =
      (.ok below.length, left, s'.reported (.connection left true .releaseSavepoint name)) := by
    have hheed : p.1.heeding name = p.1 := by
      rw [heeding, suppress, ← hsup, ite_self]
    have hcommit : (unwindTo name fun t => discard (Lifecycle.commit config t)).exec p₁ =
        (.ok (), left, s') := hto
    have hdepth : below.length = left.depth := by
      rw [depth, settle_stack]
    rw [releaseSavepoint_eq, Act.exec_bind_ok (exec_heed name p), hheed,
      Act.exec_bind_ok (Act.exec_get _), if_neg (by simp [hsup]),
      Act.exec_bind_ok (exec_trace _ _ _ _), Act.exec_bind_ok hcommit, hdepth]
    rfl
  rw [hexec]
  refine ⟨rfl, rfl, ?_, fun hrises => List.pairwise_iff_getElem.2 fun i j hi hj hij => ?_⟩
  · exact (hended.before ((Services.Records.refl p.2).reported _)).later
      ((Services.Records.refl s').reported _)
  · obtain ⟨u, a, ha, hu, hua⟩ := unwind_dated (p := p₁) hp hl hs hst hx
      (List.getElem?_eq_getElem hi)
    obtain ⟨v, b, hb, hv, hvb⟩ := unwind_dated (p := p₁) hp hl hs hst hx
      (List.getElem?_eq_getElem hj)
    exact ⟨u, v, a, b, hu, hv, hua, hvb, hrises _ _ a b (Nat.le_add_right ..)
      (Nat.add_lt_add_left hij _) (Nat.add_lt_add_left hj _) ha hb⟩

/-- While the services work, a rollback ends the upper entries and sets the savepoint again. -/
theorem rollbackTo_resets (hmax : 0 < config.maxAncestorDepth)
    (hserves : p.2.Serves (p.1.depth + 1)) (hunused : p.2.Unused 2) :
    ∃ a b, p.2.clock.reading p.2.clock.taken = some a ∧
      p.2.clock.reading (p.2.clock.taken + 1) = some b ∧
      Resets name gone (renewed config p.1.name name a b below) below p
        ((rollbackTo config name).exec p) := by
  let left : Connection := settle { p.1 with stack := below }
  let p₁ : Connection × Services :=
    (p.1, p.2.reported (.connection p.1 false .rollbackToSavepoint name))
  have hlt : below.length < p.1.depth := below?_lt hbelow
  have hworks : p₁.2.Works :=
    ⟨hserves.up, fun i hi => hserves.readings i (by omega), hunused⟩
  obtain ⟨a, ha⟩ := hworks.readings 0 (by decide)
  obtain ⟨b, hb⟩ := hworks.readings 1 (by decide)
  refine ⟨a, b, ha, hb, ?_⟩
  obtain ⟨s₂, hto, _, hended⟩ := unwindTo_served (p := p₁) hp hl hs hst .rollBack hbelow
    ((hserves.mono (Nat.le_succ _)).reported _)
  have hrolled : (unwindTo name Lifecycle.rollback).exec p₁ = (.ok (), left, s₂) := hto
  have hq : Unwound below.length p₁ (left, s₂) := unwindTo_unwound hp hbelow hs hrolled
  have hidles : p₁.2.Idles s₂ := by
    have hall := unwindTo_idles name p₁
    rwa [hrolled] at hall
  have hspares : p₁.2.Spares s₂ := by
    have hall : Shifts config p₁ _ := unwindTo_shifts rollback_drops name p₁
    rw [hrolled] at hall
    exact hall.spares
  have hshallow : ∀ e ∈ left.stack.head?, e.txn.depth < config.maxAncestorDepth := by
    rw [hq.stack]
    exact Linked.shallow hl hp hs hlt
  obtain ⟨s₃, hset, hgains⟩ := setSavepoint_renews hq.rests hq.perched hq.opened
    (hq.suppressed.trans hsup) hshallow hmax (hworks.after hspares hidles)
    (hidles.clock ▸ ha) (hidles.clock ▸ hb) name
  have hleft : left.stack = below := settle_stack _
  have hown : left.name = p.1.name := settle_name _
  rw [hq.depth_eq hlt, hleft, hown] at hset
  rw [hleft, hown] at hgains
  have hconnection : ({ left.heeded name true with
      phase := .active, stack := renewed config p.1.name name a b below ++ below } : Connection) =
      { p.1.heeded name true with stack := renewed config p.1.name name a b below ++ below } := by
    have hph : p.1.phase = .active := hp.active_of_below? hbelow
    simp only [left, settle, heeded, suppress]
    split <;> split <;> simp [hph]
  have hapart : ∀ id ∈ gone.map (·.txn.id),
      id ∉ (renewed config p.1.name name a b below).map (·.txn.id) := by
    intro id hgone hfresh
    obtain ⟨v, o, _, _, _, hv⟩ := hended.ended id hgone
    obtain ⟨e, he, rfl⟩ := List.mem_map.1 hfresh
    rw [(hgains.begun e he).1] at hv
    cases hv
  rw [rollbackTo_open hsup, Act.exec_bind_ok hrolled, Act.exec_bind_ok hset]
  refine ⟨rfl, hconnection, fun e he => ?_, fun e he => ?_, fun id hgone hfresh => ?_⟩
  · have hid : e.txn.id ∈ gone.map (·.txn.id) := List.mem_map_of_mem he
    obtain ⟨v, o, hv, hactive, ho, hv'⟩ := hended.ended _ hid
    cases ho with
    | rollBack => exact ⟨v, hv, hactive, (hgains.others _ (hapart _ hid)).trans hv'⟩
  · obtain ⟨hnew, hfound⟩ := hgains.begun e he
    refine ⟨(hended.others _ fun hid => ?_).symm.trans hnew, hfound⟩
    exact hapart _ hid (List.mem_map_of_mem he)
  · exact (hgains.others id hfresh).trans (hended.others id hgone)

end

/-- The nearest entry of a name, with the entries above and below it. -/
theorem exists_nearest {st : List Savepoint} (h : ∃ e ∈ st, e.name = name) :
    ∃ above e below, st = above ++ e :: below ∧ e.name = name ∧ (∀ d ∈ above, d.name ≠ name) ∧
      below? name st = some below.length := by
  induction st with
  | nil => simp at h
  | cons d rest ih =>
    by_cases hd : d.name = name
    · refine ⟨[], d, rest, rfl, hd, fun _ he => absurd he List.not_mem_nil, ?_⟩
      rw [below?, if_pos hd]
    · have hrest : ∃ e ∈ rest, e.name = name := by simpa [hd] using h
      obtain ⟨above, e, below, hst, he, habove, hbelow⟩ := ih hrest
      refine ⟨d :: above, e, below, by rw [hst, List.cons_append], he, ?_, ?_⟩
      · exact List.forall_mem_cons.2 ⟨hd, habove⟩
      · rw [below?, if_neg hd, hbelow]

/-- In every run of any number of connections over one lifecycle, for a connection that does not
suppress savepoints, and every name on its stack, while the services work and the clock repeats no
reading. A release and a rollback to the name act on the nearest entry called so and those above it:
the release commits exactly these, upper ones first. The rollback rolls back exactly these, and sets
a savepoint of that name on what is left. Nothing else changes, of the stack or of the records. -/
theorem nearest_up {config : Config} {w₀ w : Pool} (h₀ : w₀.Fresh) (h : Pool.Reach config w₀ w)
    (i : Nat) {name : String} (hsup : (w.connections i).suppressed = false)
    (hname : ∃ e ∈ (w.connections i).stack, e.name = name)
    (hserves : w.services.Serves ((w.connections i).depth + 1))
    (hclock : w₀.services.clock.Differs w₀.services.clock.taken (w.services.clock.taken + 2))
    (hmax : 0 < config.maxAncestorDepth) :
    ∃ above e below, (w.connections i).stack = above ++ e :: below ∧ e.name = name ∧
      (∀ d ∈ above, d.name ≠ name) ∧
      Releases config (above ++ [e]) below (w.view i)
        ((releaseSavepoint config name).exec (w.view i)) ∧
      ∃ a b, w.services.clock.reading w.services.clock.taken = some a ∧
        w.services.clock.reading (w.services.clock.taken + 1) = some b ∧
        Resets name (above ++ [e]) (renewed config (w.connections i).name name a b below) below
          (w.view i) ((rollbackTo config name).exec (w.view i)) := by
  have hw := h.upheld h₀
  have hs : w.ledger.Sound config.maxAncestorDepth.toNat := hw.genuine.sound
  have hp : (w.view i).1.Perched (w.view i).2.ledger := hw.perched i
  have hl : (w.view i).1.Linked := hw.linked i
  obtain ⟨above, e, below, hst, he, habove, hbelow⟩ := exists_nearest hname
  have hsplit : (w.view i).1.stack = above ++ [e] ++ below := by
    rw [List.append_assoc, List.singleton_append]
    exact hst
  refine ⟨above, e, below, hst, he, habove, ?_, ?_⟩
  · exact releaseSavepoint_releases hp hl hs hsup hsplit hbelow (hserves.mono (Nat.le_succ _))
  · exact rollbackTo_resets hp hl hs hsup hsplit hbelow hmax hserves (hw.unused hclock)

/-- Connection 0 with two savepoints `a` and a savepoint `b` on top of them. -/
def repeatedPool : Pool :=
  ((idlePool.after {} 0 (.setSavepoint "a")).after {} 0 (.setSavepoint "a")).after {} 0
    (.setSavepoint "b")

theorem reach_repeatedPool : Pool.Reach {} idlePool repeatedPool := by
  refine .tail (.tail (.single (.call 0 ?_)) (.call 0 ?_)) (.call 0 ?_) <;>
  · intro t ht
    cases ht

theorem serves_repeatedPool (n : Nat) : repeatedPool.services.Serves n :=
  ⟨fun _ _ => rfl, fun _ _ => ⟨_, rfl⟩⟩

/-- The general rule at this run: the root and the lower savepoint `a` stay. -/
theorem nearest_up_repeated :
    (repeatedPool.connections 0).depth = 4 ∧ ∃ gone below, below.length = 2 ∧
      (repeatedPool.connections 0).stack = gone ++ below ∧
      Releases {} gone below (repeatedPool.view 0)
        ((releaseSavepoint {} "a").exec (repeatedPool.view 0)) ∧
      ∃ fresh, Resets "a" gone fresh below (repeatedPool.view 0)
        ((rollbackTo {} "a").exec (repeatedPool.view 0)) := by
  have htaken : repeatedPool.services.clock.taken + 2 < UInt64.size := by decide
  have hclock := (Clock.rises_standard htaken).differs
  have hname : ∃ e ∈ (repeatedPool.connections 0).stack, e.name = "a" := by decide +kernel
  obtain ⟨above, e, below, hst, _, _, hrelease, a, b, _, _, hreset⟩ :=
    nearest_up idlePool_fresh reach_repeatedPool 0 rfl hname (serves_repeatedPool _) hclock
      (by decide)
  have hlen : ((releaseSavepoint {} "a").exec (repeatedPool.view 0)).1 = .ok 2 := rfl
  rw [hrelease.answer] at hlen
  refine ⟨rfl, above ++ [e], below, Except.ok.inj hlen, ?_, hrelease, _, hreset⟩
  rw [hst, List.append_assoc, List.singleton_append]

end Connection

end NestedTxn
