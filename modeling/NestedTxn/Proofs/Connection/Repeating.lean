import NestedTxn.Proofs.Connection.Ending
import NestedTxn.Proofs.Connection.Retry

/-!
# Repeating a call that ends entries

A release of a savepoint, a commit, an abort or a close that failed is called again, until it
succeeds.

* `Call.ended`, `Call.leaves`: the entries that such a call ends, and the connection that it leaves.
* `Connection.Pending`: what a call that failed leaves to do. With what it did, that is what there
  was to do before (`Pending.trans`).
* `Connection.Comes`: what comes of one call. `Call.run_comes` is the step, `Attempts.pending` the
  run of calls that failed.
* `Connection.attempts_as_one`: any number of calls that failed and one that succeeds come to what
  one call does that succeeds at once, up to the timestamps that were drawn.
-/

namespace NestedTxn

namespace Lifecycle

/-- Beside its own timestamp a commit records that timestamp, or one that does not depend on it. -/
theorem globalOf_cases (config : Config) (l : Ledger) (t : Txn) :
    globalOf config l t = some ∨ ∃ g, globalOf config l t = fun _ => g := by
  unfold globalOf
  cases t.standsAlone with
  | true => exact .inl rfl
  | false => exact .inr ⟨_, rfl⟩

theorem globalOf_of_txns {config : Config} {l l' : Ledger} (h : l'.txns = l.txns) (t : Txn) :
    globalOf config l' t = globalOf config l t := by
  funext ts
  unfold globalOf
  rw [Ledger.outermost_congr fun _ _ a _ => Ledger.find?_congr h a]

end Lifecycle

namespace Connection

open Ledger Services TxnError

/-! ## What there is to do -/

namespace Call

/-- The call ends entries of the connection, and finds the savepoint that it names. -/
def Ending (conn : Connection) : Call → Prop
  | releaseSavepoint name => below? name conn.stack ≠ none
  | commit | abort | close => True
  | activeTxn | activateNested .. | setSavepoint _ | rollbackTo _ | elevate _ | suppress _ => False

/-- How a call ends entries. -/
def fate : Call → Fate
  | abort | close => .rollBack
  | _ => .commit

/-- The number of lowest entries that stay on the stack. -/
def kept (conn : Connection) : Call → Nat
  | releaseSavepoint name =>
    if (conn.heeding name).suppressed then conn.depth
    else (below? name conn.stack).getD conn.depth
  | _ => 0

/-- The entries that a call ends. A commit of the bottom entry settles those above it. -/
def ended (conn : Connection) : Call → List Savepoint
  | commit => conn.stack.getLast?.toList
  | c => conn.stack.rdrop (c.kept conn)

/-- The connection that a call leaves. -/
def leaves (conn : Connection) : Call → Connection
  | releaseSavepoint name =>
    settle { conn.heeding name with
      stack := conn.stack.rtake ((releaseSavepoint name).kept conn) }
  | close => { conn with stack := [], phase := .closed }
  | _ => settle { conn with stack := [] }

theorem ended_release (conn : Connection) (name : String) :
    (releaseSavepoint name).ended conn =
      conn.stack.rdrop ((releaseSavepoint name).kept conn) := rfl

theorem ended_subset (conn : Connection) (c : Call) : ∀ e ∈ c.ended conn, e ∈ conn.stack := by
  intro e he
  cases c with
  | commit => exact List.mem_of_getLast? (Option.mem_toList.1 he)
  | _ => exact List.mem_of_mem_take he

theorem Ending.outer? {conn : Connection} {c : Call} (h : c.Ending conn) : c.outer? = none := by
  cases c <;> first | rfl | exact h.elim

end Call

variable {config : Config} {c : Call} {p q r : Connection × Services} {gone more : List Savepoint}
  {name : String} {n : Nat}

/-- What a call that failed leaves to do. The entries in `gone` are ended. -/
structure Pending (config : Config) (c : Call) (p : Connection × Services) (gone : List Savepoint)
    (q : Connection × Services) : Prop where
  stack : p.1.stack = gone ++ q.1.stack
  records : Ended config c.fate p.2 (gone.map (·.txn.id)) q.2
  ended : c.ended p.1 = gone ++ c.ended q.1
  leaves : c.leaves q.1 = c.leaves p.1
  ending : c.Ending q.1

/-- What comes of a call. -/
inductive Comes (config : Config) (c : Call) (p : Connection × Services) :
    Except TxnError Unit × Connection × Services → Prop
  /-- It is done. -/
  | done {s : Services} : Ended config c.fate p.2 ((c.ended p.1).map (·.txn.id)) s →
      Comes config c p (.ok (), c.leaves p.1, s)
  /-- A service did not answer, or the connection was closed before. -/
  | halted {err : TxnError} {gone : List Savepoint} {q : Connection × Services} :
      err.IsOutage ∧ ¬ p.2.Serves p.1.depth ∨ c = .commit ∧ p.1.phase = .closed →
      Pending config c p gone q → Comes config c p (.error err, q)

/-- Nothing was done. -/
theorem pending_all {s : Services} (hc : c.Ending p.1) (hr : p.2.Records p.2.ledger s) :
    Pending config c p [] (p.1, s) :=
  ⟨rfl, ended_of_records hr, rfl, rfl, hc⟩

/-- A connection whose entries are unwound for a call. -/
theorem Unwinds.comes {d : Connection} {x : Except TxnError Unit × Connection × Services}
    (h : Unwinds config c.fate (d, p.2) n (c.leaves p.1) x) (hst : d.stack = p.1.stack)
    (hended : c.ended p.1 = p.1.stack.rdrop n)
    (hagain : ∀ m, n < m → m ≤ p.1.depth →
      c.Ending { d with stack := p.1.stack.rtake m } ∧
      c.leaves { d with stack := p.1.stack.rtake m } = c.leaves p.1 ∧
      c.ended { d with stack := p.1.stack.rtake m } = (p.1.stack.rtake m).rdrop n) :
    Comes config c p x := by
  cases h with
  | @done s h =>
    refine .done ?_
    rw [hended]
    exact hst ▸ h
  | @halted err m s hm hle ho hns h =>
    dsimp only [depth] at hle hns h ⊢
    rw [hst] at hle hns h ⊢
    obtain ⟨hending, hleaves, hrest⟩ := hagain m hm hle
    have hpending : Pending config c p (p.1.stack.rdrop m)
        ({ d with stack := p.1.stack.rtake m }, s) := by
      refine ⟨(List.take_append_drop _ _).symm, h, ?_, hleaves, hending⟩
      rw [hended, hrest, rdrop_append_rdrop hm.le hle]
    exact .halted (.inl ⟨ho, hns⟩) hpending

/-! ## One call -/

/-- The second release finds the switch as the first one left it. -/
theorem heeding_restack (c : Connection) (name : String) (st : List Savepoint) :
    ({ c.heeding name with stack := st } : Connection).heeding name =
      { c.heeding name with stack := st } := by
  unfold heeding
  split <;> rfl

/-- A stack that is not empty leaves the phase as it is. -/
theorem settle_of_ne_nil {c : Connection} (h : c.stack ≠ []) : c.settle = c := by
  rw [settle, if_neg]
  rintro ⟨he, -⟩
  exact h (List.isEmpty_iff.1 he)

section

variable (hp : p.1.Perched p.2.ledger) (hl : p.1.Linked)
  (hs : p.2.ledger.Sound config.maxAncestorDepth.toNat)
include hp hl hs

theorem release_comes (hc : below? name p.1.stack ≠ none) :
    Comes config (.releaseSavepoint name) p
      ((discard (releaseSavepoint config name)).exec p) := by
  obtain ⟨n, hn⟩ := Option.ne_none_iff_exists'.1 hc
  cases hsup : (p.1.heeding name).suppressed with
  | true =>
    have hne : (p.1.heeding name).stack ≠ [] := by
      rw [heeding_stack]
      intro hst
      rw [hst] at hn
      cases hn
    have hleaves : (Call.releaseSavepoint name).leaves p.1 = p.1.heeding name := by
      have hkeep : p.1.stack.rtake p.1.depth = (p.1.heeding name).stack := by
        rw [depth, rtake_length, heeding_stack]
      rw [Call.leaves, Call.kept, if_pos hsup, hkeep]
      exact settle_of_ne_nil hne
    have hended : (Call.releaseSavepoint name).ended p.1 = [] := by
      rw [Call.ended_release, Call.kept, if_pos hsup, depth, rdrop_length]
    rw [Act.exec_discard, releaseSavepoint_eq, Act.exec_bind_ok (exec_heed name p),
      Act.exec_bind_ok (Act.exec_get _), if_pos hsup]
    have hdone : Comes config (.releaseSavepoint name) p
        (.ok (), (Call.releaseSavepoint name).leaves p.1, p.2) := by
      refine .done ?_
      rw [hended]
      exact ended_of_records (.refl p.2)
    rwa [hleaves] at hdone
  | false =>
    have hopen : ∀ {d : Connection}, (d.heeding name).suppressed = false →
        below? name d.stack = some n → (Call.releaseSavepoint name).kept d = n := by
      intro d hd hbelow
      rw [Call.kept, if_neg (by simp [hd]), hbelow]
      rfl
    have hkept := hopen hsup hn
    have hleaves : (Call.releaseSavepoint name).leaves p.1 =
        settle { p.1.heeding name with stack := p.1.stack.rtake n } := by
      rw [Call.leaves, hkept]
    have hunwinds := releaseSavepoint_unwinds hp hl hs hsup hn
    rw [← hleaves] at hunwinds
    refine hunwinds.comes (heeding_stack p.1 name) ?_ fun m hm hle => ?_
    · rw [Call.ended_release, hkept]
    · -- the savepoint is still found, and the switch stays as it was set
      let d : Connection := { p.1.heeding name with stack := p.1.stack.rtake m }
      have hbelow : below? name d.stack = some n := below?_rtake hn hm
      have hswitch : d.heeding name = d := heeding_restack p.1 name _
      have hkept' : (Call.releaseSavepoint name).kept d = n := hopen (hswitch.symm ▸ hsup) hbelow
      refine ⟨Option.ne_none_iff_exists'.2 ⟨n, hbelow⟩, ?_, ?_⟩
      · rw [hleaves, Call.leaves, hkept', hswitch, rtake_rtake hm.le hle]
      · rw [Call.ended_release, hkept']

theorem Call.run_comes (hc : c.Ending p.1) : Comes config c p ((c.run config).exec p) := by
  cases c with
  | releaseSavepoint name => exact release_comes hp hl hs hc
  | commit =>
    rcases commit_ended hp hs with ⟨s, hx, hended⟩ | ⟨err, s, hx, ho, hr⟩
    · rw [run, hx]
      exact .done hended
    · rw [run, hx]
      exact .halted (ho.imp_right fun h => ⟨rfl, h⟩) (pending_all hc hr)
  | abort =>
    refine (abort_unwinds hp hl hs).comes rfl rfl fun m _ _ => ⟨trivial, rfl, rfl⟩
  | close =>
    refine (close_unwinds hp hl hs).comes rfl rfl fun m _ _ => ⟨trivial, rfl, rfl⟩
  | activeTxn | activateNested | setSavepoint | rollbackTo | elevate | suppress => exact hc.elim

end

/-! ## Many calls -/

/-- Calls that failed, one after the other. -/
def Attempts (config : Config) (c : Call) :
    Connection × Services → Connection × Services → Prop :=
  Relation.ReflTransGen fun p q => ∃ e, (c.run config).exec p = (.error e, q)

theorem Pending.trans (h : Pending config c p gone q) (h' : Pending config c q more r)
    (hp : p.1.Perched p.2.ledger) (hl : p.1.Linked)
    (hs : p.2.ledger.Sound config.maxAncestorDepth.toNat) :
    Pending config c p (gone ++ more) r where
  stack := by rw [h.stack, h'.stack, List.append_assoc]
  records := by
    refine hp.ended_append hl hs h.stack h.records (fun e he => ?_) h'.records
    rw [h'.stack]
    exact List.mem_append_left _ he
  ended := by rw [h.ended, h'.ended, List.append_assoc]
  leaves := h'.leaves.trans h.leaves
  ending := h'.ending

section

variable (hp : p.1.Perched p.2.ledger) (hl : p.1.Linked)
  (hs : p.2.ledger.Sound config.maxAncestorDepth.toNat) (hc : c.Ending p.1)
include hp hl hs hc

/-- Calls that failed leave the connection in order, with the rest to do. -/
theorem Attempts.pending (h : Attempts config c p q) :
    (q.1.Perched q.2.ledger ∧ q.1.Linked ∧ q.2.ledger.Sound config.maxAncestorDepth.toNat) ∧
      ∃ gone, Pending config c p gone q := by
  induction h with
  | refl => exact ⟨⟨hp, hl, hs⟩, [], pending_all hc (.refl p.2)⟩
  | @tail q r _ step ih =>
    obtain ⟨⟨hp', hl', hs'⟩, gone, hrest⟩ := ih
    obtain ⟨e, hx⟩ := step
    have hupkeep : Upkeep config.maxAncestorDepth.toNat q ((c.run config).exec q).2 := by
      refine Call.run_upkeep fun t ht => ?_
      rw [hc.outer?] at ht
      cases ht
    have hcomes := Call.run_comes hp' hl' hs' hrest.ending
    rw [hx] at hupkeep hcomes
    have hkept := hupkeep hs' hp' hl'
    cases hcomes with
    | halted _ hmore =>
      exact ⟨⟨hkept.perched, hkept.linked, hkept.sound⟩, _, hrest.trans hmore hp hl hs⟩

/-- Calls that failed and one that succeeds end what one call would. -/
theorem Attempts.done (h : Attempts config c p q) (hx : (c.run config).exec q = (.ok (), r)) :
    r.1 = c.leaves p.1 ∧ Ended config c.fate p.2 ((c.ended p.1).map (·.txn.id)) r.2 := by
  obtain ⟨⟨hp', hl', hs'⟩, gone, hrest⟩ := h.pending hp hl hs hc
  have hcomes := Call.run_comes hp' hl' hs' hrest.ending
  rw [hx] at hcomes
  cases hcomes with
  | done hended =>
    refine ⟨hrest.leaves, ?_⟩
    rw [hrest.ended]
    exact hp.ended_append hl hs hrest.stack hrest.records (Call.ended_subset _ c) hended

/-- What is off the stack was ended, and what is on it was not. -/
theorem Attempts.active_iff (h : Attempts config c p q) :
    q.1.stack <:+ p.1.stack ∧ ∀ e ∈ p.1.stack, ∃ u, q.2.ledger.find? e.txn.id = some u ∧
      (u.state = .active ↔ e ∈ q.1.stack) := by
  obtain ⟨⟨hp', _, _⟩, gone, hrest⟩ := h.pending hp hl hs hc
  refine ⟨⟨gone, hrest.stack.symm⟩, fun e he => ?_⟩
  by_cases hon : e ∈ q.1.stack
  · obtain ⟨u, hu, _⟩ := hp'.found e hon
    exact ⟨u, hu, fun _ => hon, fun _ => hp'.record_active hon hu⟩
  · rw [hrest.stack, List.mem_append] at he
    obtain ⟨u, hu, hterminal⟩ :=
      hrest.records.terminal (List.mem_map_of_mem (he.resolve_right hon))
    exact ⟨u, hu, fun ha => absurd ha hterminal, fun h => absurd h hon⟩

end

/-! ## The timestamps that were drawn -/

/-- The same record, or one transaction that was committed twice: at one of the timestamps `drawn`,
and at one of `drawn'`. Beside its own timestamp a commit records that one again, or one that is the
same both times. -/
inductive SameBut (drawn drawn' : Timestamp → Prop) : Option Txn → Option Txn → Prop
  | same (t : Option Txn) : SameBut drawn drawn' t t
  | dated {v : Txn} {a b : Timestamp} {g : Timestamp → Option Timestamp} :
      drawn a → drawn' b → (g = some ∨ ∃ ts, g = fun _ => ts) →
      SameBut drawn drawn' (some (v.finish (.committed a (g a))))
        (some (v.finish (.committed b (g b))))

/-- Twice the same entries were ended. -/
theorem Ended.sameBut {fate : Fate} {s s' u u' : Services} {gone : List TxnId}
    (h : Ended config fate s gone u) (h' : Ended config fate s' gone u')
    (ht : s'.ledger.txns = s.ledger.txns) (id : TxnId) :
    SameBut (s.Drawn u) (s'.Drawn u') (u.ledger.find? id) (u'.ledger.find? id) := by
  have hsame : s'.ledger.find? id = s.ledger.find? id := find?_congr ht id
  by_cases hid : id ∈ gone
  · obtain ⟨v, o, hv, _, ho, hu⟩ := h.ended id hid
    obtain ⟨v', o', hv', _, ho', hu'⟩ := h'.ended id hid
    rw [hsame, hv] at hv'
    cases hv'
    rw [hu, hu']
    cases ho with
    | rollBack =>
      cases ho'
      exact .same _
    | commit hts =>
      cases ho' with
      | commit hts' =>
        rw [Lifecycle.globalOf_of_txns ht v]
        exact .dated hts hts' (Lifecycle.globalOf_cases config s.ledger v)
  · rw [h.others id hid, h'.others id hid, hsame]
    exact .same _

/-- In every run of any number of connections, whatever does not answer: a release of a savepoint
that is there, a commit, an abort or a close is called until it succeeds. After each call that failed,
exactly the entries on the stack are active, of those that were there. No call fails but for a
service that does not answer, or because it commits a closed connection. The last call comes to what
one call comes to that succeeds at once: the same connection, and the same records, up to the
timestamps that were drawn. -/
theorem attempts_as_one {w₀ w : Pool} (h₀ : w₀.Fresh) (h : Pool.Reach config w₀ w) (i : Nat)
    (hc : c.Ending (w.connections i)) {s : Services} (hs : s.ledger.txns = w.ledger.txns)
    (hp : Attempts config c (w.connections i, s) p) :
    (p.1.stack <:+ (w.connections i).stack ∧
      ∀ e ∈ (w.connections i).stack, ∃ u, p.2.ledger.find? e.txn.id = some u ∧
        (u.state = .active ↔ e ∈ p.1.stack)) ∧
    Act.FailsWith (fun e => e.IsOutage ∨ c = .commit ∧ p.1.phase = .closed) (c.run config) p ∧
    (p.2.Serves p.1.depth → ¬ (c = .commit ∧ p.1.phase = .closed) →
      ∃ q, (c.run config).exec p = (.ok (), q)) ∧
    ∀ s' q q', s'.ledger.txns = w.ledger.txns → (c.run config).exec p = (.ok (), q) →
      (c.run config).exec (w.connections i, s') = (.ok (), q') →
      q.1 = q'.1 ∧ ∀ id, SameBut (s.Drawn q.2) (s'.Drawn q'.2) (q.2.ledger.find? id)
        (q'.2.ledger.find? id) := by
  have hw := h.upheld h₀
  have hl : (w.connections i).Linked := hw.linked i
  have hperched : ∀ {s : Services}, s.ledger.txns = w.ledger.txns →
      (w.connections i).Perched s.ledger := (hw.perched i).of_txns
  have hsound : ∀ {s : Services}, s.ledger.txns = w.ledger.txns →
      s.ledger.Sound config.maxAncestorDepth.toNat := fun h => hw.genuine.sound.of_txns h
  obtain ⟨⟨hp', hl', hs'⟩, gone, hrest⟩ := hp.pending (hperched hs) hl (hsound hs) hc
  have hcomes := Call.run_comes hp' hl' hs' hrest.ending
  refine ⟨hp.active_iff (hperched hs) hl (hsound hs) hc, fun e q hx => ?_, fun hserves hopen => ?_,
    fun s' q q' ht hx hx' => ?_⟩
  · rw [hx] at hcomes
    cases hcomes with
    | halted ho _ => exact ho.imp_left And.left
  · rcases hx : (c.run config).exec p with ⟨e | u, q⟩
    · rw [hx] at hcomes
      cases hcomes with
      | halted ho _ => exact (ho.elim (fun h => h.2 hserves) hopen).elim
    · exact ⟨q, rfl⟩
  · obtain ⟨hq, hended⟩ := hp.done (hperched hs) hl (hsound hs) hc hx
    have hone : Attempts config c (w.connections i, s') (w.connections i, s') := .refl
    obtain ⟨hq', hended'⟩ := hone.done (hperched ht) hl (hsound ht) hc hx'
    exact ⟨hq.trans hq'.symm, hended.sameBut hended' (ht.trans hs.symm)⟩

/-! ## A release that fails half-way -/

/-- The readings of a clock that fails once. -/
def faltering : List (Option Timestamp) := [some 1, some 2, some 3, some 4, none, some 5, some 6]

/-- Connection 0 with the savepoints `a` and `b`. The next reading but one is absent. -/
def stackedPool : Pool :=
  ((scriptedPool faltering).after {} 0 (.setSavepoint "a")).after {} 0 (.setSavepoint "b")

theorem reach_stackedPool : Pool.Reach {} (scriptedPool faltering) stackedPool := by
  refine .tail (.single (.call 0 ?_)) (.call 0 ?_) <;>
  · intro t ht
    cases ht

/-- A release of `a`. -/
def letGo (p : Connection × Services) : Except TxnError Unit × Connection × Services :=
  ((Call.releaseSavepoint "a").run {}).exec p

/-- What the first release leaves: the savepoint `b` is committed, and `a` is not. -/
def halfway : Connection × Services := (letGo (stackedPool.view 0)).2

/-- The same records, beside a clock that does not fail. -/
def steadyServices : Services := { stackedPool.services with clock := .startingAt 10 }

theorem serves_halfway : halfway.2.Serves halfway.1.depth where
  up _ _ := rfl
  readings i hi := by
    have hdepth : halfway.1.depth = 2 := rfl
    rw [hdepth] at hi
    obtain rfl | rfl : i = 0 ∨ i = 1 := by omega
    · exact ⟨5, rfl⟩
    · exact ⟨6, rfl⟩

/-- The general rule at this run: the second release commits `a`, and all is as if one release had
committed both savepoints at other times. -/
theorem attempts_as_one_halfway :
    (letGo (stackedPool.view 0)).1 = .error (.unavailable .clock) ∧ halfway.1.depth = 2 ∧
    ∃ q, letGo halfway = (.ok (), q) ∧
      q.1 = (letGo (stackedPool.connections 0, steadyServices)).2.1 ∧
      SameBut (stackedPool.services.Drawn q.2)
        (steadyServices.Drawn (letGo (stackedPool.connections 0, steadyServices)).2.2)
        (q.2.ledger.find? 3)
        ((letGo (stackedPool.connections 0, steadyServices)).2.2.ledger.find? 3) := by
  have hattempt : Attempts {} (.releaseSavepoint "a") (stackedPool.view 0) halfway :=
    .single ⟨_, rfl⟩
  have hfound : (Call.releaseSavepoint "a").Ending (stackedPool.connections 0) := by
    change below? "a" (stackedPool.connections 0).stack ≠ none
    decide
  obtain ⟨-, -, hsucceeds, hsame⟩ :=
    attempts_as_one (scriptedPool_fresh _) reach_stackedPool 0 hfound rfl hattempt
  obtain ⟨q, hq⟩ := hsucceeds serves_halfway (by rintro ⟨h, -⟩; cases h)
  obtain ⟨hconn, hrecords⟩ := hsame steadyServices q _ rfl hq rfl
  exact ⟨rfl, rfl, q, hq, hconn, hrecords 3⟩

end Connection

end NestedTxn
