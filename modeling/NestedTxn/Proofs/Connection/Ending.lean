import NestedTxn.Proofs.Connection.Undoing
import NestedTxn.Proofs.Lifecycle.Outermost

/-!
# Ending the entries of a stack

* `Connection.Fate`: entries are committed, or rolled back. `Fate.Gives` is the outcome that is then
  recorded.
* `Connection.Ended`: between two moments exactly the given records were ended, each with the
  outcome of its fate. `Perched.ended_append` puts two such changes of one stack together, the upper
  entries first: what a commit records depends on the entries below only.
* `Connection.Unwinds`: what comes of ending entries, top first. Either all of them are ended, or a
  service did not answer, and the entries that are not ended are still on the stack.
  `unwind_unwinds` is the loop. `releaseSavepoint_unwinds`, `abort_unwinds` and `close_unwinds` are
  the calls that run it, and `commit_ended` is the one that does without.
-/

namespace NestedTxn

namespace Lifecycle

/-- What a commit records is determined by what never changes of the transaction. -/
theorem globalOf_congr {config : Config} {l : Ledger} {t u : Txn} (h : t.origin = u.origin)
    (ts : Timestamp) : globalOf config l t ts = globalOf config l u ts := by
  unfold globalOf Txn.standsAlone Txn.isRoot
  rw [Txn.parent_of_origin h, Txn.dependent_of_origin h]

end Lifecycle

namespace Connection

open Ledger Services TxnError

/-- How entries are ended. -/
inductive Fate where
  | commit
  | rollBack

namespace Fate

/-- The call of the lifecycle that ends a transaction. -/
def finish (config : Config) : Fate → Txn → Act Services TxnError Unit
  | commit, t => discard (Lifecycle.commit config t)
  | rollBack, t => Lifecycle.rollback t

/-- The outcome that is recorded for `v`, beside the records `l`. A commit is dated with one of the
timestamps `drawn`. -/
inductive Gives (config : Config) (l : Ledger) (v : Txn) (drawn : Timestamp → Prop) :
    Fate → Outcome → Prop
  | commit {ts : Timestamp} : drawn ts →
      Gives config l v drawn .commit (.committed ts (Lifecycle.globalOf config l v ts))
  | rollBack : Gives config l v drawn .rollBack .rolledBack

theorem finish_drops (config : Config) (fate : Fate) : Drops (fate.finish config) :=
  match fate with
  | commit => commit_drops config
  | rollBack => rollback_drops

theorem Gives.mono {config : Config} {l l' : Ledger} {v : Txn} {drawn drawn' : Timestamp → Prop}
    {fate : Fate} {o : Outcome} (h : Gives config l v drawn fate o)
    (hg : ∀ ts, Lifecycle.globalOf config l v ts = Lifecycle.globalOf config l' v ts)
    (hd : ∀ ts, drawn ts → drawn' ts) : Gives config l' v drawn' fate o := by
  cases h with
  | commit hts =>
    rw [hg]
    exact .commit (hd _ hts)
  | rollBack => exact .rollBack

end Fate

/-- From `s` to `s'` the active records in `gone` were ended, and no other record changed. -/
structure Ended (config : Config) (fate : Fate) (s : Services) (gone : List TxnId)
    (s' : Services) : Prop extends s.Elapsed s' where
  others : ∀ id ∉ gone, s'.ledger.find? id = s.ledger.find? id
  ended : ∀ id ∈ gone, ∃ v o, s.ledger.find? id = some v ∧ v.state = .active ∧
    fate.Gives config s.ledger v (s.Drawn s') o ∧ s'.ledger.find? id = some (v.finish o)

variable {config : Config} {fate : Fate} {c : Connection} {l : Ledger} {s s' s'' : Services}
  {p : Connection × Services} {gone more : List TxnId} {st rest xs ys : List Savepoint}
  {e : Savepoint} {name : String} {m n : Nat}

theorem ended_of_records (h : s.Records s.ledger s') : Ended config fate s [] s' where
  toElapsed := h.toSpares.elapsed
  others id _ := h.find? id
  ended _ hid := absurd hid List.not_mem_nil

/-- What is ended is terminal. -/
theorem Ended.terminal {id : TxnId} (h : Ended config fate s gone s') (hid : id ∈ gone) :
    ∃ u, s'.ledger.find? id = some u ∧ u.state ≠ .active := by
  obtain ⟨v, o, _, _, _, hv⟩ := h.ended id hid
  refine ⟨_, hv, ?_⟩
  cases o <;> nofun

/-- The outermost ancestor is the same while no ancestor is ended. -/
theorem Ended.globalOf {id : TxnId} {v : Txn} (h : Ended config fate s gone s')
    (hv : s.ledger.find? id = some v) (hup : ∀ a ∈ gone, ¬ s.ledger.Ancestor id a)
    (ts : Timestamp) :
    Lifecycle.globalOf config s'.ledger v ts = Lifecycle.globalOf config s.ledger v ts := by
  unfold Lifecycle.globalOf
  rw [outermost_congr]
  intro q hq a ha
  have hanc : s.ledger.Ancestor id a := (ancestor_iff_parent ⟨v, hv, hq⟩).2 ha
  exact h.others a fun hmem => hup a hmem hanc

/-- First some records are ended, and then others, none of which is a descendant of them. -/
theorem Ended.append (h : Ended config fate s gone s') (h' : Ended config fate s' more s'')
    (hapart : ∀ id ∈ more, id ∉ gone ∧ ∀ a ∈ gone, ¬ s.ledger.Ancestor id a) :
    Ended config fate s (gone ++ more) s'' where
  toElapsed := h.toElapsed.trans h'.toElapsed
  others id hid := by
    rw [List.mem_append, not_or] at hid
    rw [h'.others id hid.2, h.others id hid.1]
  ended id hid := by
    by_cases hmore : id ∈ more
    · obtain ⟨hgone, hup⟩ := hapart id hmore
      obtain ⟨v, o, hv, ha, ho, hv'⟩ := h'.ended id hmore
      rw [h.others id hgone] at hv
      refine ⟨v, o, hv, ha, ho.mono (h.globalOf hv hup) fun ts hts => ?_, hv'⟩
      exact hts.widen_left h.toElapsed
    · obtain ⟨v, o, hv, ha, ho, hv'⟩ := h.ended id ((List.mem_append.1 hid).resolve_right hmore)
      have hlast : s''.ledger.find? id = some (v.finish o) := (h'.others id hmore).trans hv'
      refine ⟨v, o, hv, ha, ho.mono (fun _ => rfl) fun ts hts => ?_, hlast⟩
      exact hts.widen_right h'.toElapsed

/-- A call before it that changed no record. -/
theorem Ended.before (h : Ended config fate s' gone s'') (hr : s.Records s.ledger s') :
    Ended config fate s gone s'' :=
  (ended_of_records hr).append h fun _ _ => ⟨List.not_mem_nil, fun _ ha => nomatch ha⟩

/-- A call after it that changed no record. -/
theorem Ended.later (h : Ended config fate s gone s') (hr : s'.Records s'.ledger s'') :
    Ended config fate s gone s'' := by
  have happend := h.append (ended_of_records hr) fun _ hid => nomatch hid
  rwa [List.append_nil] at happend

/-- A record that was ended. -/
theorem ended_of_replace {v : Txn} {o : Outcome} (hv : s.ledger.find? e.txn.id = some v)
    (ha : v.state = .active) (ho : fate.Gives config s.ledger v (s.Drawn s') o)
    (hr : s.Records (s.ledger.replace (v.finish o)) s') : Ended config fate s [e.txn.id] s' where
  toElapsed := hr.toSpares.elapsed
  others id hid := by
    rw [List.mem_singleton] at hid
    rw [hr.find?, find?_replace, Txn.finish_id, id_of_find? hv, if_neg (Ne.symm hid)]
  ended id hid := by
    obtain rfl := List.mem_singleton.1 hid
    refine ⟨v, o, hv, ha, ho, ?_⟩
    rw [hr.find?, find?_replace, Txn.finish_id, id_of_find? hv, if_pos rfl, hv]
    rfl

/-! ## One stack -/

section

variable (hp : c.Perched l) (hl : c.Linked) {max : Nat} (hs : l.Sound max)
  (hst : c.stack = xs ++ ys)
include hp hl hs hst

/-- An entry is not an ancestor of one below it. -/
theorem Perched.not_above {x y : Savepoint} (hx : x ∈ xs) (hy : y ∈ ys) :
    y.txn.id ≠ x.txn.id ∧ ¬ l.Ancestor y.txn.id x.txn.id := by
  obtain ⟨mid, rest, rfl⟩ := List.append_of_mem hy
  have hnodup := hp.nodup
  rw [ids, hst, List.map_append, List.nodup_append] at hnodup
  have hne : x.txn.id ≠ y.txn.id :=
    hnodup.2.2 _ (List.mem_map_of_mem hx) _ (List.mem_map_of_mem hy)
  -- `y` is the bottom entry of the part of the stack that ends with it
  have hsplit : c.stack = (xs ++ (mid ++ [y])) ++ rest := by simp [hst]
  have hchain : (xs ++ (mid ++ [y])).IsChain Savepoint.On := by
    rw [Linked, hsplit] at hl
    exact hl.left_of_append
  have hfound : ∀ e ∈ xs ++ (mid ++ [y]), ∃ t, l.find? e.txn.id = some t ∧ t.bare = e.txn.bare :=
    fun e he => hp.found e (hsplit ▸ List.mem_append_left _ he)
  refine ⟨hne.symm, fun hyx => ?_⟩
  have hlast : (xs ++ (mid ++ [y])).getLast? = some y := by simp
  rcases Linked.ancestor hchain hfound hlast x (List.mem_append_left _ hx) with rfl | hxy
  · exact hne rfl
  · obtain ⟨t, ht, _⟩ := hfound x (List.mem_append_left _ hx)
    exact hs.not_ancestor_self ht (hxy.trans hyx)

end

/-- The upper entries of a stack are ended, and then some below them. -/
theorem Perched.ended_append (hp : c.Perched s.ledger) (hl : c.Linked)
    (hs : s.ledger.Sound config.maxAncestorDepth.toNat) (hst : c.stack = xs ++ ys)
    (h : Ended config fate s (xs.map (·.txn.id)) s') {zs : List Savepoint} (hz : ∀ z ∈ zs, z ∈ ys)
    (h' : Ended config fate s' (zs.map (·.txn.id)) s'') :
    Ended config fate s ((xs ++ zs).map (·.txn.id)) s'' := by
  rw [List.map_append]
  refine h.append h' fun id hid => ?_
  obtain ⟨z, hzmem, rfl⟩ := List.mem_map.1 hid
  constructor
  · intro hmem
    obtain ⟨x, hx, heq⟩ := List.mem_map.1 hmem
    exact (hp.not_above hl hs hst hx (hz z hzmem)).1 heq.symm
  · intro a ha
    obtain ⟨x, hx, rfl⟩ := List.mem_map.1 ha
    exact (hp.not_above hl hs hst hx (hz z hzmem)).2

/-! ## One entry -/

section

variable (hp : p.1.Perched p.2.ledger) (hs : p.2.ledger.Sound config.maxAncestorDepth.toNat)
include hp hs

/-- An entry is ended, unless a service does not answer. -/
theorem Fate.finish_cases (fate : Fate) (he : e ∈ p.1.stack) :
    (∃ err s', (fate.finish config e.txn).exec p.2 = (.error err, s') ∧ err.IsOutage ∧
        ¬ p.2.Serves 1 ∧ p.2.Records p.2.ledger s') ∨
      ∃ s', (fate.finish config e.txn).exec p.2 = (.ok (), s') ∧
        Ended config fate p.2 [e.txn.id] s' ∧ p.2.Spares s' ∧
        (s'.clock = p.2.clock ∨ s'.clock = p.2.ticked.clock) := by
  obtain ⟨t, ht, hb⟩ := hp.found e he
  cases fate with
  | commit =>
    have hdef : Fate.commit.finish config e.txn = discard (Lifecycle.commit config e.txn) := rfl
    rcases hx : (Lifecycle.commit config e.txn).exec p.2 with ⟨err | ts, s'⟩
    · refine .inl ⟨err, s', by rw [hdef, Act.exec_discard, hx]; rfl, ?_⟩
      have houtage : err.IsOutage := commit_entry_fails hp hs he err s' hx
      refine ⟨houtage, fun hserves => Lifecycle.commit_serves hserves err s' hx houtage, ?_⟩
      rcases Lifecycle.commit_cases config e.txn p.2 with
        ⟨err', s₁, hy, hr⟩ | ⟨_, _, _, _, _, _, _, _, hy, _⟩ <;> rw [hx] at hy <;> cases hy
      exact hr
    · obtain ⟨u, hu, ha, hd, hr, hc⟩ := Lifecycle.commit_committed hx
      rw [ht] at hu
      cases hu
      refine .inr ⟨s', by rw [hdef, Act.exec_discard, hx]; rfl, ?_, hr.toSpares, .inr hc⟩
      rw [← Lifecycle.globalOf_congr (Txn.origin_of_bare hb)] at hr
      exact ended_of_replace ht ha (.commit hd) hr
  | rollBack =>
    rcases Lifecycle.rollback_cases e.txn p.2 with
      ⟨err, s', hx, hlooks⟩ | ⟨s', _, _, hdone⟩ | ⟨u, s', _, hu, ha, hx, hr, hc⟩
    · have houtage : err.IsOutage := rollback_entry_fails hp he err s' hx
      refine .inl ⟨err, s', hx, houtage, fun hserves => ?_, hlooks.toRecords⟩
      exact Lifecycle.rollback_serves hserves.up err s' hx houtage
    · -- an entry was not rolled back before
      rcases hdone with hd | ⟨u, hu, hd⟩
      · rw [hp.active e he] at hd
        cases hd
      · rw [hp.record_active he hu] at hd
        cases hd
    · exact .inr ⟨s', hx, ended_of_replace hu ha .rollBack hr, hr.toSpares, .inl hc⟩

/-- The top entry is ended and leaves the stack, unless a service does not answer. -/
theorem dropTop_cases (fate : Fate) (hst : p.1.stack = e :: rest) :
    (∃ err s', (dropTop (fate.finish config)).exec p = (.error err, p.1, s') ∧ err.IsOutage ∧
        ¬ p.2.Serves 1 ∧ p.2.Records p.2.ledger s') ∨
      ∃ s', (dropTop (fate.finish config)).exec p = (.ok (), { p.1 with stack := rest }, s') ∧
        Ended config fate p.2 [e.txn.id] s' ∧ ∀ n, p.2.Serves (n + 1) → s'.Serves n := by
  have he : e ∈ p.1.stack := by simp [hst]
  rw [dropTop, Act.exec_bind_ok (exec_leaf_cons hst), Act.exec_bind, Act.exec_onSnd]
  rcases fate.finish_cases hp hs he with ⟨err, s', hx, houtage, hn, hr⟩ | ⟨s', hx, hended, hsp, hc⟩
  · rw [hx]
    exact .inl ⟨err, s', rfl, houtage, hn, hr⟩
  · rw [hx]
    exact .inr ⟨s', by simp [pop, hst], hended, fun n hserves => hserves.after hsp hc⟩

end

/-! ## Entries from the top down -/

/-- What comes of ending all but the lowest `n` entries. If it is done the connection is `left`. -/
inductive Unwinds (config : Config) (fate : Fate) (p : Connection × Services) (n : Nat)
    (left : Connection) : Except TxnError Unit × Connection × Services → Prop
  /-- They are ended. -/
  | done {s' : Services} :
      Ended config fate p.2 ((p.1.stack.rdrop n).map (·.txn.id)) s' →
      Unwinds config fate p n left (.ok (), left, s')
  /-- A service did not answer. More entries are left on the stack, and the others are ended. -/
  | halted {err : TxnError} {m : Nat} {s' : Services} :
      n < m → m ≤ p.1.depth → err.IsOutage → ¬ p.2.Serves p.1.depth →
      Ended config fate p.2 ((p.1.stack.rdrop m).map (·.txn.id)) s' →
      Unwinds config fate p n left (.error err, { p.1 with stack := p.1.stack.rtake m }, s')

theorem rtake_length (st : List Savepoint) : st.rtake st.length = st := by
  rw [List.rtake, Nat.sub_self, List.drop_zero]

theorem rdrop_length (st : List Savepoint) : st.rdrop st.length = [] := by
  rw [List.rdrop, Nat.sub_self, List.take_zero]

theorem rtake_cons (h : m ≤ rest.length) : (e :: rest).rtake m = rest.rtake m := by
  rw [List.rtake, List.length_cons, Nat.succ_sub h, List.drop_succ_cons, List.rtake]

theorem rdrop_cons (h : m ≤ rest.length) : (e :: rest).rdrop m = e :: rest.rdrop m := by
  rw [List.rdrop, List.length_cons, Nat.succ_sub h, List.take_succ_cons, List.rdrop]

/-- No entry was ended. -/
theorem Unwinds.refused {left : Connection} {err : TxnError} (hn : n < p.1.depth)
    (ho : err.IsOutage) (hserves : ¬ p.2.Serves p.1.depth) (hr : p.2.Records p.2.ledger s') :
    Unwinds config fate p n left (.error err, p.1, s') := by
  have hgone : Ended config fate p.2 ((p.1.stack.rdrop p.1.depth).map (·.txn.id)) s' := by
    rw [depth, rdrop_length]
    exact ended_of_records hr
  have hhalt : Unwinds config fate p n left
      (.error err, { p.1 with stack := p.1.stack.rtake p.1.depth }, s') :=
    .halted hn le_rfl ho hserves hgone
  rwa [depth, rtake_length] at hhalt

section

variable (hp : p.1.Perched p.2.ledger) (hl : p.1.Linked)
  (hs : p.2.ledger.Sound config.maxAncestorDepth.toNat)
include hp hl hs

/-- The top entry is ended, and then those below it. -/
theorem Unwinds.below {left : Connection} {r : Except TxnError Unit × Connection × Services}
    (hst : p.1.stack = e :: rest) (hn : n ≤ rest.length)
    (he : Ended config fate p.2 [e.txn.id] s') (hserves : ∀ k, p.2.Serves (k + 1) → s'.Serves k)
    (h : Unwinds config fate ({ p.1 with stack := rest }, s') n left r) :
    Unwinds config fate p n left r := by
  have happend : ∀ {m s''}, m ≤ rest.length →
      Ended config fate s' ((rest.rdrop m).map (·.txn.id)) s'' →
      Ended config fate p.2 ((p.1.stack.rdrop m).map (·.txn.id)) s'' := by
    intro m s'' hm h
    have hfirst : Ended config fate p.2 ([e].map (·.txn.id)) s' := he
    rw [hst, rdrop_cons hm]
    exact hp.ended_append hl hs hst hfirst (fun _ hz => List.mem_of_mem_take hz) h
  have hdepth : p.1.depth = rest.length + 1 := by rw [depth, hst, List.length_cons]
  cases h with
  | done hended => exact .done (happend hn hended)
  | @halted err m s'' hm hle ho hns hended =>
    have hlen : m ≤ rest.length := hle
    have hhalt : Unwinds config fate p n left
        (.error err, { p.1 with stack := p.1.stack.rtake m }, s'') :=
      .halted hm (by omega) ho (fun h => hns (hserves _ (hdepth ▸ h))) (happend hlen hended)
    rwa [hst, rtake_cons hlen] at hhalt

/-- The loop ends entries from the top down. -/
theorem unwind_unwinds {k : Nat} (hk : n + k = p.1.depth) :
    Unwinds config fate p n { p.1 with stack := p.1.stack.rtake n }
      ((unwind (fate.finish config) k).exec p) := by
  induction k generalizing p with
  | zero =>
    obtain rfl : n = p.1.stack.length := hk
    rw [rtake_length]
    refine .done ?_
    rw [rdrop_length]
    exact ended_of_records (.refl _)
  | succ k ih =>
    obtain ⟨e, rest, hst⟩ : ∃ e rest, p.1.stack = e :: rest :=
      List.exists_cons_of_length_pos (show 0 < p.1.depth by omega)
    have hn : n + k = rest.length := by
      rw [depth, hst, List.length_cons] at hk
      omega
    rw [unwind_succ]
    rcases dropTop_cases hp hs fate hst with
      ⟨err, s', hx, ho, hns, hr⟩ | ⟨s', hx, hended, hserves⟩
    · rw [Act.exec_bind_error hx]
      exact .refused (by omega) ho (fun h => hns (h.mono (by omega))) hr
    · rw [Act.exec_bind_ok hx]
      obtain ⟨hp', hs'⟩ := hp.after hs (dropTop_shifts (fate.finish_drops config)) hx
      have hl' : ({ p.1 with stack := rest } : Connection).Linked := by
        rw [Linked, hst] at hl
        exact hl.tail
      have hrest := ih hp' hl' hs' hn
      rw [hst, rtake_cons (by omega)]
      exact hrest.below hp hl hs hst (by omega) hended hserves

end

/-! ## Calls -/

/-- What a release of `name` makes of a connection before it ends an entry. -/
def heeding (c : Connection) (name : String) : Connection :=
  if name = batchName then c.suppress false else c

@[simp] theorem heeding_stack (c : Connection) (name : String) :
    (c.heeding name).stack = c.stack := by
  unfold heeding
  split <;> rfl

@[simp] theorem heeding_phase (c : Connection) (name : String) :
    (c.heeding name).phase = c.phase := by
  unfold heeding
  split <;> rfl

theorem exec_heed (name : String) (p : Connection × Services) :
    (heed name false).exec p = (.ok (), p.1.heeding name, p.2) := by
  unfold heed heeding
  split <;> rfl

/-- An operation that cannot fail follows. -/
theorem Unwinds.andThen {c' : Connection} {a f : Act (Connection × Services) TxnError Unit}
    {q : Connection × Services} (h : Unwinds config fate p n c (a.exec q))
    (hf : ∀ s, ∃ s', f.exec (c, s) = (.ok (), c', s') ∧ s.Records s.ledger s') :
    Unwinds config fate p n c' ((do a; f).exec q) := by
  rw [Act.exec_bind]
  generalize a.exec q = r at h
  cases h with
  | @done s hended =>
    obtain ⟨s', hx, hr⟩ := hf s
    dsimp only
    rw [hx]
    exact .done (hended.later hr)
  | halted hm hle ho hns hended => exact .halted hm hle ho hns hended

/-- An operation that only reported something went before. -/
theorem Unwinds.reported {ev : Event} {r : Except TxnError Unit × Connection × Services}
    (h : Unwinds config fate (p.1, p.2.reported ev) n c r) : Unwinds config fate p n c r := by
  have hr : p.2.Records p.2.ledger (p.2.reported ev) := (Services.Records.refl p.2).reported ev
  cases h with
  | done hended => exact .done (hended.before hr)
  | halted hm hle ho hns hended =>
    exact .halted hm hle ho (fun h => hns (h.reported _)) (hended.before hr)

section

variable (hp : p.1.Perched p.2.ledger) (hl : p.1.Linked)
  (hs : p.2.ledger.Sound config.maxAncestorDepth.toNat)
include hp hl hs

theorem unwindTo_unwinds (fate : Fate) (hbelow : below? name p.1.stack = some n) :
    Unwinds config fate p n (settle { p.1 with stack := p.1.stack.rtake n })
      ((unwindTo name (fate.finish config)).exec p) := by
  have hlt : n < p.1.depth := below?_lt hbelow
  rw [unwindTo_found (hp.active_of_below? hbelow) hbelow]
  exact (unwind_unwinds hp hl hs (by omega)).andThen fun s => ⟨s, rfl, .refl s⟩

/-- A release commits all entries down to the nearest savepoint of that name. -/
theorem releaseSavepoint_unwinds (hsup : (p.1.heeding name).suppressed = false)
    (hbelow : below? name p.1.stack = some n) :
    Unwinds config .commit (p.1.heeding name, p.2) n
      (settle { p.1.heeding name with stack := p.1.stack.rtake n })
      ((discard (releaseSavepoint config name)).exec p) := by
  let p₁ : Connection × Services := (p.1.heeding name,
    p.2.reported (.connection (p.1.heeding name) false .releaseSavepoint name))
  have hst : (p.1.heeding name).stack = p.1.stack := heeding_stack p.1 name
  have hp₁ : p₁.1.Perched p₁.2.ledger :=
    hp.keep hst (fun h => .inl (heeding_phase p.1 name ▸ h)) fun _ _ t ht => ⟨t, ht, rfl⟩
  have hl₁ : p₁.1.Linked := by
    rw [Linked, hst]
    exact hl
  have hexec : (discard (releaseSavepoint config name)).exec p =
      (do unwindTo name fun t => discard (Lifecycle.commit config t)
          trace true .releaseSavepoint name : Act _ _ _).exec p₁ := by
    rw [Act.exec_discard, releaseSavepoint_eq, Act.exec_bind_ok (exec_heed name p),
      Act.exec_bind_ok (Act.exec_get _), if_neg (by simp [hsup]),
      Act.exec_bind_ok (exec_trace _ _ _ _)]
    rcases hu : (unwindTo name fun t => discard (Lifecycle.commit config t)).exec p₁ with
      ⟨e | x, q⟩
    · rw [Act.exec_bind_error hu, Act.exec_bind_error hu]
      rfl
    · rw [Act.exec_bind_ok hu, Act.exec_bind_ok hu]
      rfl
  have hunwind := unwindTo_unwinds (p := p₁) hp₁ hl₁ hs .commit (hst.symm ▸ hbelow)
  rw [hst] at hunwind
  have hall := hunwind.andThen fun s => ⟨_, exec_trace true .releaseSavepoint name (_, s),
    (Services.Records.refl s).reported _⟩
  rw [hexec]
  exact Unwinds.reported (p := (p.1.heeding name, p.2)) hall

/-- An abort rolls back all entries. -/
theorem abort_unwinds :
    Unwinds config .rollBack p 0 (settle { p.1 with stack := [] }) (abort.exec p) := by
  let p₁ : Connection × Services := (p.1, p.2.reported (.connection p.1 false .abort ""))
  rw [abort_eq, Act.exec_bind_ok (exec_trace _ _ _ p), Act.exec_bind_ok (Act.exec_get p₁)]
  suffices h : Unwinds config .rollBack p₁ 0 (settle { p.1 with stack := [] }) _ from h.reported
  split
  · next hph =>
    have hst : p.1.stack = [] := hp.idle hph
    have hsame : settle { p.1 with stack := [] } = p.1 := by
      rw [settle, if_neg (fun h => hph h.2), ← hst]
    rw [hsame]
    refine .done ?_
    rw [hst]
    exact ended_of_records (.refl _)
  · next hph =>
    have hactive : p.1.phase = .active := Decidable.not_not.1 hph
    have hall : Unwinds config .rollBack p₁ 0 { p.1 with stack := p.1.stack.rtake 0 }
        ((unwind Lifecycle.rollback p₁.1.depth).exec p₁) :=
      unwind_unwinds (p := p₁) hp hl hs (Nat.zero_add p₁.1.depth)
    rw [List.rtake_zero] at hall
    have hidle : settle { p.1 with stack := [] } = { p.1 with stack := [], phase := .idle } := by
      simp [settle, hactive]
    rw [hidle]
    exact hall.andThen fun s => ⟨_, rfl, (Services.Records.refl s).reported _⟩

theorem close_unwinds :
    Unwinds config .rollBack p 0 { p.1 with stack := [], phase := .closed } (close.exec p) := by
  refine (abort_unwinds hp hl hs).andThen fun s => ⟨s, ?_, .refl s⟩
  rw [exec_alter, settle]
  split <;> rfl

omit hl in
/-- A commit commits the bottom entry and clears the stack. It refuses on a closed connection. -/
theorem commit_ended :
    (∃ s', (discard (commit config)).exec p = (.ok (), settle { p.1 with stack := [] }, s') ∧
        Ended config .commit p.2 (p.1.stack.getLast?.toList.map (·.txn.id)) s') ∨
      ∃ err s', (discard (commit config)).exec p = (.error err, p.1, s') ∧
        (err.IsOutage ∧ ¬ p.2.Serves p.1.depth ∨ p.1.phase = .closed) ∧
        p.2.Records p.2.ledger s' := by
  let p₁ : Connection × Services := (p.1, p.2.reported (.connection p.1 false .commit ""))
  have hr₁ : p.2.Records p.2.ledger p₁.2 := (Services.Records.refl p.2).reported _
  rw [Act.exec_discard, commit_eq, Act.exec_bind_ok (exec_trace _ _ _ p),
    Act.exec_bind_ok (Act.exec_get p₁)]
  cases hph : p.1.phase with
  | idle =>
    have hst : p.1.stack = [] := hp.idle (by rw [hph]; nofun)
    have hsame : settle { p.1 with stack := [] } = p.1 := by
      rw [settle, if_neg (by simp [hph]), ← hst]
    rw [hsame, hst]
    exact .inl ⟨_, rfl, ended_of_records (hr₁.reported _)⟩
  | closed => exact .inr ⟨_, _, rfl, .inr rfl, hr₁⟩
  | active =>
    have hidle : settle { p.1 with stack := [] } = { p.1 with stack := [], phase := .idle } := by
      simp [settle, hph]
    rw [hidle]
    dsimp only
    cases hlast : p.1.stack.getLast? with
    | none =>
      have hst : p.1.stack = [] := by simpa using hlast
      have hb : p.1.bottom? = none := by simp [bottom?, hlast]
      have hsame : ({ p.1 with stack := [], phase := .idle } : Connection) =
          { p.1 with phase := .idle } := by rw [← hst]
      rw [hb, hsame]
      exact .inl ⟨_, rfl, ended_of_records hr₁⟩
    | some e =>
      have hb : p.1.bottom? = some e.txn := by simp [bottom?, hlast]
      have he : e ∈ p.1.stack := List.mem_of_getLast? hlast
      have hdepth : 1 ≤ p.1.depth := List.length_pos_of_mem he
      rw [hb]
      dsimp only
      rw [Act.exec_bind, dropAll, Act.exec_bind, Act.exec_onSnd]
      have hcases := Fate.finish_cases (p := p₁) hp hs .commit he
      rw [Fate.finish, Act.exec_discard] at hcases
      rcases hx : (Lifecycle.commit config e.txn).exec p₁.2 with ⟨err | ts, s'⟩
      all_goals
        rw [hx] at hcases
        rcases hcases with ⟨err', s₁, hy, ho, hns, hr⟩ | ⟨s₁, hy, hended, -⟩ <;> cases hy
      · refine .inr ⟨err, s', rfl, .inl ⟨ho, fun h => hns ((h.mono hdepth).reported _)⟩, ?_⟩
        exact ⟨hr₁.toSpares.trans hr.toSpares, hr.txns⟩
      · exact .inl ⟨_, rfl, (hended.before hr₁).later ((Services.Records.refl s').reported _)⟩

end

end Connection

end NestedTxn
