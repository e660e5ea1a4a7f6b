import Mathlib.Data.List.DropRight
import NestedTxn.Proofs.Connection.Failures
import NestedTxn.Proofs.Connection.Resting
import NestedTxn.Proofs.Connection.Success
import NestedTxn.Proofs.Connection.Upkeep
import NestedTxn.Proofs.Ledger.Undone

/-!
# What a rollback to a savepoint undoes

* `Services.Works`: the ledger answers, and the clock has two unused readings.
* `Connection.RollsBackTo`: what a rollback to a savepoint comes to. The lowest entries stay, all
  above them are rolled back and nothing else is, and the savepoint is set again.
  `rollbackTo_works`: so it is while the services work.
* `Connection.Halted`: where a rollback to a savepoint may stop instead (`rollbackTo_halted`). An
  entry leaves the stack only once it is rolled back, but a savepoint that could not be set again is
  gone.
-/

namespace NestedTxn

namespace Services

/-- The ledger answers all calls to come, and the next two readings of the clock are there, differ
and are not the ids of records. -/
structure Works (s : Services) : Prop where
  up : s.ledger.switch.Up
  readings : ∀ i < 2, ∃ ts, s.clock.reading (s.clock.taken + i) = some ts
  unused : s.Unused 2

theorem Works.of_readings {s : Services} {a b : Timestamp} (hup : s.ledger.switch.Up)
    (ha : s.clock.reading s.clock.taken = some a)
    (hb : s.clock.reading (s.clock.taken + 1) = some b) (hab : a ≠ b)
    (hfa : s.ledger.find? a = none) (hfb : s.ledger.find? b = none) : s.Works where
  up := hup
  readings i hi := by
    obtain rfl | rfl : i = 0 ∨ i = 1 := by omega
    · exact ⟨a, ha⟩
    · exact ⟨b, hb⟩
  unused i hi ts hts := by
    obtain rfl | rfl : i = 0 ∨ i = 1 := by omega
    · obtain rfl : a = ts := Option.some.inj (ha.symm.trans hts)
      exact ⟨hfa, by omega⟩
    · obtain rfl : b = ts := Option.some.inj (hb.symm.trans hts)
      refine ⟨hfb, fun j hj heq => hab ?_⟩
      obtain rfl : j = 0 := by omega
      exact Option.some.inj (ha.symm.trans heq)

/-- The services work after calls that took no time. -/
theorem Works.after {s s' : Services} (h : s.Works) (hs : s.Spares s') (hi : s.Idles s') :
    s'.Works where
  up := hs.up h.up
  readings := by
    rw [hi.clock]
    exact h.readings
  unused := h.unused.idles hi

end Services

namespace Connection

open Ledger Services

variable {config : Config} {p q : Connection × Services} {name : String} {n : Nat}
  {st : List Savepoint} {err : TxnError}

/-! ## The lowest entries of a stack -/

theorem length_rtake (h : n ≤ st.length) : (st.rtake n).length = n := by
  rw [List.rtake, List.length_drop]
  omega

/-- One entry more is the entry on top of the others. -/
theorem rtake_succ (h : n < st.length) : ∃ d ∈ st, st.rtake (n + 1) = d :: st.rtake n := by
  have hlt : st.length - (n + 1) < st.length := by omega
  have hnext : st.length - (n + 1) + 1 = st.length - n := by omega
  refine ⟨st[st.length - (n + 1)], List.getElem_mem hlt, ?_⟩
  rw [List.rtake, List.rtake, List.drop_eq_getElem_cons hlt, hnext]

theorem rtake_rtake {m : Nat} (hn : n ≤ m) (hm : m ≤ st.length) :
    (st.rtake m).rtake n = st.rtake n := by
  have hsum : st.length - m + (m - n) = st.length - n := by omega
  rw [List.rtake, length_rtake hm, List.rtake, List.drop_drop, hsum, List.rtake]

theorem rdrop_append_rdrop {m : Nat} (hn : n ≤ m) (hm : m ≤ st.length) :
    st.rdrop m ++ (st.rtake m).rdrop n = st.rdrop n := by
  have hsum : st.length - n = st.length - m + (m - n) := by omega
  rw [List.rdrop, List.rdrop, length_rtake hm, List.rtake, List.rdrop, hsum, List.take_add]

/-- There are fewer entries below a savepoint than there are altogether. -/
theorem below?_lt (h : below? name st = some n) : n < st.length := by
  induction st with
  | nil => cases h
  | cons e rest ih =>
    rw [below?] at h
    rw [List.length_cons]
    split at h
    · cases h
      exact Nat.lt_succ_self _
    · exact Nat.lt_succ_of_lt (ih h)

/-- Entries of other names are passed over. -/
theorem below?_append {above : List Savepoint} (h : ∀ d ∈ above, d.name ≠ name) :
    below? name (above ++ st) = below? name st := by
  induction above with
  | nil => rfl
  | cons d above ih =>
    rw [List.cons_append, below?, if_neg (h d (List.mem_cons_self ..))]
    exact ih fun e he => h e (List.mem_cons_of_mem _ he)

/-- A savepoint is still found after entries above it left. -/
theorem below?_rtake {m : Nat} (h : below? name st = some n) (hm : n < m) :
    below? name (st.rtake m) = some n := by
  rw [List.rtake]
  induction st with
  | nil => cases h
  | cons e rest ih =>
    by_cases hall : (e :: rest).length ≤ m
    · rwa [Nat.sub_eq_zero_of_le hall, List.drop_zero]
    · rw [List.length_cons] at hall ⊢
      have hlen : rest.length + 1 - m = rest.length - m + 1 := by omega
      rw [hlen, List.drop_succ_cons]
      rw [below?] at h
      split at h
      · cases h
        omega
      · exact ih h

/-- An entry with another one above it may have children. -/
theorem Linked.shallow {c : Connection} {l : Ledger} (hl : c.Linked) (hp : c.Perched l)
    (hs : l.Sound config.maxAncestorDepth.toNat) (hn : n < c.depth) :
    ∀ e ∈ (c.stack.rtake n).head?, e.txn.depth < config.maxAncestorDepth := by
  intro e he
  obtain ⟨d, hd, hcons⟩ := rtake_succ hn
  have hchain : (d :: c.stack.rtake n).IsChain Savepoint.On := by
    rw [← hcons]
    exact List.IsChain.drop hl _
  -- the entry above it is one level deeper, and recorded
  have hon : Savepoint.On d e := (List.isChain_cons.1 hchain).1 e he
  obtain ⟨u, hu, hb⟩ := hp.found d hd
  have hmax := (hs _ u hu).shallow
  rw [Txn.depth_of_origin (Txn.origin_of_bare hb), hon.depth] at hmax
  rw [UInt64.lt_iff_toNat_lt]
  omega

/-! ## Unwinding -/

/-- The leaf leaves the stack once it is rolled back. -/
theorem dropTop_rollback_cases (hp : p.1.Perched p.2.ledger) :
    (∃ err s', (dropTop Lifecycle.rollback).exec p = (.error err, p.1, s') ∧
        p.2.ledger.Undone [] s'.ledger) ∨
      ∃ e rest s', p.1.stack = e :: rest ∧
        (dropTop Lifecycle.rollback).exec p = (.ok (), { p.1 with stack := rest }, s') ∧
        p.2.ledger.Undone [e.txn.id] s'.ledger := by
  unfold dropTop
  cases hst : p.1.stack with
  | nil =>
    rw [Act.exec_bind_error (exec_leaf_nil hst)]
    exact .inl ⟨.closed, p.2, rfl, .of_txns rfl⟩
  | cons e rest =>
    rw [Act.exec_bind_ok (exec_leaf_cons hst)]
    rcases Lifecycle.rollback_cases e.txn p.2 with
      ⟨err, s', hx, hl⟩ | ⟨s', hx, _, hdone⟩ | ⟨u, s', _, hu, _, hx, hr, _⟩
    · refine .inl ⟨err, s', ?_, .of_txns hl.txns⟩
      simp [Act.exec_bind, hx]
    · -- an entry was not rolled back before
      refine absurd ?_ (hp.not_finished hst)
      refine hdone.imp (fun hd => ?_) fun ⟨u, hu, hd⟩ => ⟨u, hu, ?_⟩ <;> rw [hd] <;> decide
    · refine .inr ⟨e, rest, s', rfl, ?_, (undone_replace hu).trans (.of_txns hr.txns)⟩
      simp [Act.exec_bind, hx, pop, hst]

section

variable (hp : p.1.Perched p.2.ledger) (hs : p.2.ledger.Sound config.maxAncestorDepth.toNat)
include hp hs

/-- Exactly the entries that were unwound are rolled back. -/
theorem unwind_undone (h : (unwind Lifecycle.rollback n).exec p = (.ok (), q)) :
    p.2.ledger.Undone ((p.1.stack.take n).map (·.txn.id)) q.2.ledger := by
  induction n generalizing p with
  | zero =>
    cases h
    exact .of_txns rfl
  | succ n ih =>
    rw [unwind_succ] at h
    rcases dropTop_rollback_cases hp with ⟨err, s', hx, _⟩ | ⟨e, rest, s', hst, hx, hundone⟩
    · rw [Act.exec_bind_error hx] at h
      cases h
    · rw [Act.exec_bind_ok hx] at h
      obtain ⟨hperched, hsound⟩ := hp.after hs (dropTop_shifts rollback_drops) hx
      rw [hst]
      exact hundone.trans (ih hperched hsound h)

/-- The same for an unwinding that failed. -/
theorem unwind_failed (h : (unwind Lifecycle.rollback n).exec p = (.error err, q)) :
    ∃ k < n, q.1 = { p.1 with stack := p.1.stack.drop k } ∧
      p.2.ledger.Undone ((p.1.stack.take k).map (·.txn.id)) q.2.ledger := by
  induction n generalizing p with
  | zero => cases h
  | succ n ih =>
    rw [unwind_succ] at h
    rcases dropTop_rollback_cases hp with ⟨err, s', hx, hsame⟩ | ⟨e, rest, s', hst, hx, hundone⟩
    · rw [Act.exec_bind_error hx] at h
      cases h
      exact ⟨0, Nat.succ_pos n, rfl, hsame⟩
    · rw [Act.exec_bind_ok hx] at h
      obtain ⟨hperched, hsound⟩ := hp.after hs (dropTop_shifts rollback_drops) hx
      obtain ⟨k, hk, hq, hrest⟩ := ih hperched hsound h
      rw [hst]
      exact ⟨k + 1, Nat.succ_lt_succ hk, hq, hundone.trans hrest⟩

end

/-- While the ledger answers, entries can be unwound. -/
theorem exec_unwind_rollback (hp : p.1.Perched p.2.ledger) (hup : p.2.ledger.switch.Up)
    (hn : n ≤ p.1.depth) : ∃ q, (unwind Lifecycle.rollback n).exec p = (.ok (), q) := by
  induction n generalizing p with
  | zero => exact ⟨p, rfl⟩
  | succ n ih =>
    cases hst : p.1.stack with
    | nil =>
      rw [depth, hst] at hn
      cases hn
    | cons e rest =>
      rw [depth, hst, List.length_cons] at hn
      obtain ⟨u, s', hx, hu, hr, _⟩ := exec_dropTop_rollback hup hp hst
      rw [unwind_succ, Act.exec_bind_ok hx]
      exact ih (p := ({ p.1 with stack := rest }, s')) (hp.drop hst hu hr) (hr.up hup)
        (Nat.le_of_succ_le_succ hn)

/-! ## Setting the savepoint again -/

/-- From `p` to `q` records were added, and none was rolled back. -/
def Adds (p q : Connection × Services) : Prop := p.2.ledger.Undone [] q.2.ledger

theorem Adds.refl (p : Connection × Services) : Adds p p := .of_txns rfl

theorem Adds.trans (p q r : Connection × Services) (h : Adds p q) (h' : Adds q r) : Adds p r :=
  Undone.trans h h'

theorem adds_of_insert {t : Txn} (hf : p.2.ledger.find? t.id = none)
    (hr : p.2.Records (p.2.ledger.insert t) q.2) : Adds p q :=
  (undone_insert hf).trans (.of_txns hr.txns)

theorem ensureActive_adds (config : Config) : Act.Keeps Adds (ensureActive config) := by
  intro p
  rcases ensureActive_cases config p with
    ⟨err, s', hx, hr⟩ | ⟨_, hx⟩ | ⟨ts, s', _, _, hf, hx, hr, _⟩ <;> rw [hx]
  · exact .of_txns hr.txns
  · exact .refl p
  · exact adds_of_insert hf hr

theorem pushChild_adds (config : Config) (name : String) :
    Act.Keeps Adds (pushChild config name) := by
  intro p
  rcases pushChild_cases config name p with
    ⟨err, s', hx, hr⟩ | ⟨e, rest, ts, d, s', _, _, _, _, hf, hx, hr, _⟩ <;> rw [hx]
  · exact .of_txns hr.txns
  · exact adds_of_insert hf hr

theorem setSavepoint_adds (config : Config) (name : String) :
    Act.Keeps Adds (setSavepoint config name) := by
  rw [setSavepoint_eq]
  refine .bind Adds.trans Adds.refl fun p => ?_
  split
  · exact Adds.refl
  · refine .bind Adds.trans (fun p => ?_) fun _ => .bind Adds.trans Adds.refl fun _ =>
      .bind Adds.trans (ensureActive_adds config) fun _ =>
      .bind Adds.trans (pushChild_adds config name) fun _ => .bind Adds.trans Adds.refl fun _ =>
      .bind Adds.trans Adds.refl fun _ => Adds.refl
    unfold heed
    split <;> exact .refl p

/-- A savepoint is set under a name that switches nothing off: the connection is made active, and a
child of its leaf is pushed. -/
theorem setSavepoint_open (hsup : p.1.suppressed = false) (hname : name ≠ batchName) :
    (setSavepoint config name).exec p =
      (do
        ensureActive config
        pushChild config name
        trace true .setSavepoint name
        return (← get).1.depth :
        Act (Connection × Services) TxnError Nat).exec
          (p.1, p.2.reported (.connection p.1 false .setSavepoint name)) := by
  rw [setSavepoint_eq, Act.exec_bind_ok (Act.exec_get p), hsup, heed, if_neg hname]
  rfl

theorem exec_setSavepoint {r : Connection × Services} (hsup : p.1.suppressed = false)
    (hname : name ≠ batchName)
    (ha : (ensureActive config).exec
      (p.1, p.2.reported (.connection p.1 false .setSavepoint name)) = (.ok (), q))
    (hc : (pushChild config name).exec q = (.ok (), r)) :
    (setSavepoint config name).exec p =
      (.ok r.1.depth, r.1, r.2.reported (.connection r.1 true .setSavepoint name)) := by
  rw [setSavepoint_open hsup hname, Act.exec_bind_ok ha, Act.exec_bind_ok hc]
  rfl

/-- A savepoint that could not be set leaves the stack as it was, or a new root on it. -/
theorem setSavepoint_failed (hsup : p.1.suppressed = false) (hname : name ≠ batchName)
    (h : (setSavepoint config name).exec p = (.error err, q)) :
    q.1 = p.1 ∨ p.1.phase = .idle ∧ ∃ t,
      q.1 = { p.1.push p.1.name t with phase := .active } ∧ p.2.ledger.find? t.id = none := by
  let p₁ : Connection × Services := (p.1, p.2.reported (.connection p.1 false .setSavepoint name))
  rw [setSavepoint_open hsup hname] at h
  -- whatever connection the child was to be pushed on is what is left
  have hpush : ∀ {r}, (ensureActive config).exec p₁ = (.ok (), r) → q.1 = r.1 := by
    intro r hr
    rw [Act.exec_bind_ok hr] at h
    rcases pushChild_cases config name r with
      ⟨err', s', hx, _⟩ | ⟨e, rest, ts, d, s', _, _, _, _, _, hx, _⟩
    · rw [Act.exec_bind_error hx] at h
      cases h
      rfl
    · rw [Act.exec_bind_ok hx] at h
      cases h
  rcases ensureActive_cases config p₁ with
    ⟨err', s', hx, _⟩ | ⟨_, hx⟩ | ⟨ts, s', hidle, _, hf, hx, _⟩
  · rw [Act.exec_bind_error hx] at h
    cases h
    exact .inl rfl
  · exact .inl (hpush (r := p₁) hx)
  · exact .inr ⟨hidle, _, hpush hx, hf⟩

/-- While the services work, a savepoint is set: on the leaf, or on a new root if there is none. -/
theorem setSavepoint_works (hrests : p.1.Rests) (hp : p.1.Perched p.2.ledger)
    (hclosed : p.1.phase ≠ .closed) (hsup : p.1.suppressed = false) (hname : name ≠ batchName)
    (hd : ∀ e ∈ p.1.stack.head?, e.txn.depth < config.maxAncestorDepth)
    (hmax : 0 < config.maxAncestorDepth) (hw : p.2.Works) :
    ∃ t base q, (setSavepoint config name).exec p = (.ok (max p.1.depth 1 + 1), q) ∧
      q.1.stack = ⟨name, t⟩ :: (base ++ p.1.stack) ∧
      base.length + p.1.depth = max p.1.depth 1 ∧
      ∀ e ∈ Savepoint.mk name t :: base, p.2.ledger.find? e.txn.id = none := by
  let p₁ : Connection × Services := (p.1, p.2.reported (.connection p.1 false .setSavepoint name))
  obtain ⟨a, ha⟩ := hw.readings 0 (by decide)
  obtain ⟨hfa, _⟩ := hw.unused 0 (by decide) a ha
  cases hph : p.1.phase with
  | closed => exact absurd hph hclosed
  | active =>
    obtain ⟨e, rest, hst⟩ := List.exists_cons_of_ne_nil (hrests hph)
    obtain ⟨t, s', hx, rfl, _⟩ := exec_pushChild_of_depth (p := p₁) hst
      (hp.active e (by simp [hst])) (hd e (by simp [hst])) hw.up ha hfa name
    have hset := exec_setSavepoint hsup hname (exec_ensureActive_active (p := p₁) hph) hx
    have hdepth : (p₁.1.push name t).depth = max p.1.depth 1 + 1 := by
      simp [depth, push, p₁, hst]
    rw [hdepth] at hset
    exact ⟨t, [], _, hset, rfl, by simp [depth, hst], by simpa using hfa⟩
  | idle =>
    have hst : p.1.stack = [] := hp.idle (by simp [hph])
    let root : Txn := .root a a config.defaultIsolation
    have hroot : root.depth < config.maxAncestorDepth := hmax
    obtain ⟨s₁, hx₁, hr₁, hc₁⟩ := exec_ensureActive_idle (p := p₁) config hph hw.up ha hfa
    have hu₁ : s₁.Unused 1 := Unused.insert (s := p₁.2) (t := root) hw.unused ha hr₁ hc₁
    obtain ⟨b, hb⟩ := hw.readings 1 (by decide)
    have hb₁ : s₁.clock.reading s₁.clock.taken = some b := by
      rw [hc₁]
      exact hb
    have hfb : s₁.ledger.find? b = none := hu₁.next (by decide) b hb₁
    obtain ⟨t, s₂, hx₂, rfl, _⟩ := exec_pushChild_of_depth
      (p := ({ p.1.push p.1.name root with phase := .active }, s₁)) rfl rfl hroot (hr₁.up hw.up)
      hb₁ hfb name
    have hset := exec_setSavepoint hsup hname hx₁ hx₂
    have hft : p.2.ledger.find? t.id = none :=
      ((undone_insert hfa).trans (.of_txns hr₁.txns)).unrecorded hfb
    have hdepth : (({ p.1.push p.1.name root with phase := .active } : Connection).push name t).depth
        = max p.1.depth 1 + 1 := by
      simp [depth, push, hst]
    rw [hdepth] at hset
    refine ⟨t, [⟨p.1.name, root⟩], _, hset, rfl, by simp [depth, hst], ?_⟩
    simp only [List.mem_cons, List.not_mem_nil, or_false]
    rintro e (rfl | rfl)
    · exact hft
    · exact hfa

/-! ## Unwinding to a savepoint -/

/-- From `p` to `q` all but the lowest `n` entries were rolled back, and left the stack. -/
structure Unwound (n : Nat) (p q : Connection × Services) : Prop where
  stack : q.1.stack = p.1.stack.rtake n
  name : q.1.name = p.1.name
  suppressed : q.1.suppressed = p.1.suppressed
  opened : q.1.phase ≠ .closed
  rests : q.1.Rests
  perched : q.1.Perched q.2.ledger
  undone : p.2.ledger.Undone ((p.1.stack.rdrop n).map (·.txn.id)) q.2.ledger

/-- There are as many entries left. -/
theorem Unwound.depth_eq (h : Unwound n p q) (hn : n < p.1.depth) : q.1.depth = n := by
  rw [depth, h.stack, length_rtake hn.le]

section

variable {finish : Txn → Act Services TxnError Unit}

/-- A savepoint that is found belongs to an active connection. -/
theorem Perched.active_of_below? {c : Connection} {l : Ledger} (hp : c.Perched l)
    (h : below? name c.stack = some n) : c.phase = .active := by
  by_contra hph
  rw [hp.idle hph] at h
  cases h

/-- The entries above the lowest `n` are unwound. -/
theorem unwindTo_found (hph : p.1.phase = .active) (h : below? name p.1.stack = some n) :
    (unwindTo name finish).exec p =
      (do unwind finish (p.1.depth - n); alter settle : Act _ _ _).exec p := by
  have hopen : p.1.phase ≠ .closed := by
    rw [hph]
    nofun
  rw [unwindTo, Act.exec_bind_ok (exec_find_some hopen h), Act.exec_bind_ok (Act.exec_get p)]

variable (hp : p.1.Perched p.2.ledger) (hbelow : below? name p.1.stack = some n)
include hp hbelow

/-- While the ledger answers, the entries can be rolled back. -/
theorem exec_unwindTo_rollback (hup : p.2.ledger.switch.Up) :
    ∃ q, (unwindTo name Lifecycle.rollback).exec p = (.ok (), q) := by
  obtain ⟨q, hq⟩ := exec_unwind_rollback hp hup (Nat.sub_le p.1.depth n)
  rw [unwindTo_found (hp.active_of_below? hbelow) hbelow, Act.exec_bind_ok hq]
  exact ⟨_, rfl⟩

variable (hs : p.2.ledger.Sound config.maxAncestorDepth.toNat)
include hs

/-- The lowest `n` entries stay, and exactly the others are rolled back. -/
theorem unwindTo_unwound (h : (unwindTo name Lifecycle.rollback).exec p = (.ok (), q)) :
    Unwound n p q := by
  have hph := hp.active_of_below? hbelow
  have hperched := (hp.after hs (unwindTo_shifts rollback_drops name) h).1
  rw [unwindTo_found hph hbelow] at h
  obtain ⟨x, r, hu, h⟩ := Act.exec_bind_eq_ok h
  have hundone := unwind_undone hp hs hu
  have hr : r.1 = { p.1 with stack := p.1.stack.rtake n } := (unwind_ok hu).2
  cases h
  refine ⟨?_, ?_, ?_, ?_, settle_rests r.1, hperched, hundone⟩ <;> dsimp only
  · rw [settle_stack, hr]
  · rw [settle_name, hr]
  · rw [settle_suppressed, hr]
  · have hactive : r.1.phase = .active := by rw [hr, hph]
    unfold settle
    split
    · nofun
    · rw [hactive]
      nofun

/-- An unwinding that fails has not rolled back the savepoint itself. -/
theorem unwindTo_failed (h : (unwindTo name Lifecycle.rollback).exec p = (.error err, q)) :
    ∃ m, n < m ∧ m ≤ p.1.depth ∧ q.1 = { p.1 with stack := p.1.stack.rtake m } ∧
      p.2.ledger.Undone ((p.1.stack.rdrop m).map (·.txn.id)) q.2.ledger := by
  rw [unwindTo_found (hp.active_of_below? hbelow) hbelow] at h
  rcases hu : (unwind Lifecycle.rollback (p.1.depth - n)).exec p with ⟨err' | x, r⟩
  · rw [Act.exec_bind_error hu] at h
    cases h
    obtain ⟨k, hk, hq, hundone⟩ := unwind_failed hp hs hu
    have hsub : p.1.stack.length - (p.1.depth - k) = k := by
      unfold depth at hk ⊢
      omega
    refine ⟨p.1.depth - k, by omega, Nat.sub_le _ _, ?_, ?_⟩
    · rw [hq, List.rtake, hsub]
    · rwa [List.rdrop, hsub]
  · rw [Act.exec_bind_ok hu] at h
    cases h

end

/-! ## The call -/

/-- What a rollback to the savepoint `name` with `n` entries below it comes to, from a connection
`c` and the records `l`. -/
structure RollsBackTo (name : String) (n : Nat) (c : Connection) (l : Ledger)
    (r : Except TxnError Nat × Connection × Services) : Prop where
  /-- The new depth. A savepoint at the bottom comes to lie on a new root. -/
  answer : r.1 = .ok (max n 1 + 1)
  /-- The lowest `n` entries stay, and the savepoint is set again. -/
  stack : ∃ t base, r.2.1.stack = ⟨name, t⟩ :: (base ++ c.stack.rtake n) ∧
    base.length + n = max n 1 ∧ ∀ e ∈ Savepoint.mk name t :: base, l.find? e.txn.id = none
  /-- The other entries are rolled back, and nothing else is. -/
  undone : l.Undone ((c.stack.rdrop n).map (·.txn.id)) r.2.2.ledger

/-- Where a rollback to a savepoint with `n` entries below it may stop, from a connection `c` and
the records `l`. -/
inductive Halted (n : Nat) (c : Connection) (l : Ledger) (c' : Connection) (l' : Ledger) : Prop
  /-- The lowest `m` entries are left. -/
  | left (m : Nat) : n ≤ m → m ≤ c.depth → c'.stack = c.stack.rtake m →
      l.Undone ((c.stack.rdrop m).map (·.txn.id)) l' → Halted n c l c' l'
  /-- No entry is left, and a new root was begun. -/
  | root (t : Txn) : n = 0 → c'.stack = [⟨c.name, t⟩] → l.find? t.id = none →
      l.Undone (c.stack.map (·.txn.id)) l' → Halted n c l c' l'

theorem rollbackTo_open (hsup : p.1.suppressed = false) :
    (rollbackTo config name).exec p =
      (do
        unwindTo name Lifecycle.rollback
        let depth ← setSavepoint config name
        trace true .rollbackToSavepoint name
        return depth :
        Act (Connection × Services) TxnError Nat).exec
          (p.1, p.2.reported (.connection p.1 false .rollbackToSavepoint name)) := by
  rw [rollbackTo, Act.exec_bind_ok (Act.exec_get p), hsup]
  rfl

section

variable (hp : p.1.Perched p.2.ledger) (hbelow : below? name p.1.stack = some n)
  (hs : p.2.ledger.Sound config.maxAncestorDepth.toNat) (hsup : p.1.suppressed = false)
  (hname : name ≠ batchName)
include hp hbelow hs hsup hname

/-- An entry leaves the stack only once it is rolled back. -/
theorem rollbackTo_halted (h : (rollbackTo config name).exec p = (.error err, q)) :
    Halted n p.1 p.2.ledger q.1 q.2.ledger ∧ q.1.suppressed = false ∧ q.1.phase ≠ .closed := by
  let p₁ : Connection × Services :=
    (p.1, p.2.reported (.connection p.1 false .rollbackToSavepoint name))
  have hph : p.1.phase = .active := hp.active_of_below? hbelow
  have hn : n < p.1.depth := below?_lt hbelow
  rw [rollbackTo_open hsup] at h
  rcases hu : (unwindTo name Lifecycle.rollback).exec p₁ with ⟨err' | x, p₂⟩
  · rw [Act.exec_bind_error hu] at h
    cases h
    obtain ⟨m, hnm, hm, hq, hundone⟩ := unwindTo_failed (p := p₁) hp hbelow hs hu
    refine ⟨.left m hnm.le hm ?_ hundone, ?_, ?_⟩ <;> rw [hq]
    · exact hsup
    · change p.1.phase ≠ .closed
      rw [hph]
      nofun
  · have hq : Unwound n p₁ p₂ := unwindTo_unwound hp hbelow hs hu
    have hsup₂ : p₂.1.suppressed = false := hq.suppressed.trans hsup
    rw [Act.exec_bind_ok hu] at h
    rcases hset : (setSavepoint config name).exec p₂ with ⟨err' | x, p₃⟩
    · rw [Act.exec_bind_error hset] at h
      cases h
      have hadds := setSavepoint_adds config name p₂
      rw [hset] at hadds
      have hall := hq.undone.trans hadds
      rw [List.append_nil] at hall
      rcases setSavepoint_failed hsup₂ hname hset with hsame | ⟨hidle, t, hroot, hnew⟩
      · rw [hsame]
        exact ⟨.left n le_rfl hn.le hq.stack hall, hsup₂, hq.opened⟩
      · -- the stack ran empty
        have hnil : p₂.1.stack = [] := hq.perched.idle (by rw [hidle]; nofun)
        have hn₀ : n = 0 := (hq.depth_eq hn).symm.trans (congrArg List.length hnil)
        subst hn₀
        rw [List.rdrop_zero] at hall
        rw [hroot]
        refine ⟨.root t rfl ?_ (hq.undone.unrecorded hnew) hall, hsup₂, nofun⟩
        rw [push, hnil, hq.name]
    · rw [Act.exec_bind_ok hset] at h
      cases h

/-- While the services work, a rollback to a savepoint does what it is for. -/
theorem rollbackTo_works (hl : p.1.Linked) (hmax : 0 < config.maxAncestorDepth) (hw : p.2.Works) :
    RollsBackTo name n p.1 p.2.ledger ((rollbackTo config name).exec p) := by
  let p₁ : Connection × Services :=
    (p.1, p.2.reported (.connection p.1 false .rollbackToSavepoint name))
  have hn : n < p.1.depth := below?_lt hbelow
  obtain ⟨p₂, hu⟩ := exec_unwindTo_rollback (p := p₁) hp hbelow hw.up
  have hq : Unwound n p₁ p₂ := unwindTo_unwound hp hbelow hs hu
  have hw₂ : p₂.2.Works := by
    have hshifts : Shifts config p₁ _ := unwindTo_shifts rollback_drops name p₁
    have hidles := unwindTo_idles name p₁
    rw [hu] at hshifts hidles
    exact Works.after (s := p₁.2) ⟨hw.up, hw.readings, hw.unused⟩ hshifts.spares hidles
  have hshallow : ∀ e ∈ p₂.1.stack.head?, e.txn.depth < config.maxAncestorDepth := by
    rw [hq.stack]
    exact Linked.shallow hl hp hs hn
  obtain ⟨t, base, p₃, hx, hst, hlen, hnew⟩ := setSavepoint_works hq.rests hq.perched hq.opened
    (hq.suppressed.trans hsup) hname hshallow hmax hw₂
  have hadds := setSavepoint_adds config name p₂
  rw [hx] at hadds
  have hall := hq.undone.trans hadds
  rw [hq.depth_eq hn] at hx hlen
  rw [hq.stack] at hst
  rw [List.append_nil] at hall
  rw [rollbackTo_open hsup, Act.exec_bind_ok hu, Act.exec_bind_ok hx]
  exact ⟨rfl, ⟨t, base, hst, hlen, fun e he => hq.undone.unrecorded (hnew e he)⟩, hall⟩

end

end Connection

end NestedTxn
