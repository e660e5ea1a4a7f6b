import Mathlib.Logic.Relation
import NestedTxn.Proofs.Row.Calls
import NestedTxn.Proofs.Visibility.Frames
import NestedTxn.Proofs.Visibility.Lookups

/-!
# The memo makes no difference

* `Services.Apart a`: the operation `a` neither looks at the ledger nor changes it.
* `SnapshotFilter.Inquiry`: what a filter is asked. In states that are peers it gives the same
  answer and leaves peers behind (`Inquiry.run_agrees`), so that the same outcomes are reported.
* `SnapshotFilter.Faithful`: the memo holds terminal records of the ledger. A filter starts so
  (`load_faithful`), and inquiries and calls of the ledger keep it. A filter with a faithful memo
  and the same filter with an empty one are peers (`Faithful.peers`).
* `SnapshotFilter.memo_invisible`: hence a filter always answers as it would with an empty memo.
-/

namespace NestedTxn

namespace Services

variable {ε ε' α β : Type}

/-- The operation neither looks at the ledger nor changes it. -/
def Apart (a : Act Services ε α) : Prop :=
  ∀ s l, a.exec (s.withLedger l) = ((a.exec s).1, (a.exec s).2.withLedger l)

namespace Apart

variable {a : Act Services ε α}

theorem ledger (h : Apart a) (s : Services) : (a.exec s).2.ledger = s.ledger := by
  have hs := congrArg Prod.snd (h s s.ledger)
  exact (congrArg Services.ledger hs :)

theorem wrap (h : Apart a) (f : ε → ε') : Apart (a.wrap f) := by
  intro s l
  rw [Act.exec_wrap, Act.exec_wrap, h s l]

theorem bind {f : α → Act Services ε β} (h : Apart a) (hf : ∀ x, Apart (f x)) :
    Apart (a >>= f) := by
  intro s l
  rw [Act.exec_bind, Act.exec_bind, h s l]
  rcases a.exec s with ⟨e | x, t⟩
  · rfl
  · exact hf x t l

/-- What follows a look at the state may depend on all but the ledger. -/
theorem bind_get {f : Services → Act Services ε α} (hf : ∀ s l, f (s.withLedger l) = f s)
    (h : ∀ s, Apart (f s)) : Apart (get >>= f) := by
  intro s l
  rw [Act.exec_bind_ok (Act.exec_get _), Act.exec_bind_ok (Act.exec_get _), hf]
  exact h s s l

end Apart

theorem count_apart (c : Counter) : Apart (count c : Act Services ε Unit) := fun _ _ => rfl

theorem report_apart (e : Event) : Apart (report e : Act Services ε Unit) := fun _ _ => rfl

theorem onRows_apart (call : Act RowStore RowFault α) : Apart (onRows call) := by
  intro s l
  rw [exec_onRows, exec_onRows]
  rfl

theorem offer_apart (h : Nat) (origin : Origin) (n : Notice) :
    Apart (offer h origin n : Act Services ε Unit) := by
  have hdrop : ∀ reason, Apart (drop n reason : Act Services ε Unit) := fun reason =>
    .bind (count_apart _) fun _ => report_apart _
  refine .bind_get (fun _ _ => rfl) fun s => ?_
  split
  · exact fun _ _ => rfl
  · split
    · exact hdrop .closed
    · split
      · exact hdrop .full
      · exact .bind (fun _ _ => rfl) fun _ => count_apart _

end Services

namespace SnapshotFilter

open Services Act

variable {p q : SnapshotFilter × Services}

/-! ## Peers answer alike -/

theorem apart_agrees {α : Type} {a : Act Services TxnError α} (ha : Apart a) :
    Agrees Peers (onSnd a) (onSnd a) := by
  rintro ⟨f, s⟩ ⟨g, t⟩ h
  obtain ⟨l, rfl⟩ : ∃ l, t = s.withLedger l := ⟨_, h.services⟩
  have hl : l = { s.ledger with switch := l.switch } := congrArg Services.ledger h.services
  have hkept := ha.ledger s
  rw [exec_onSnd, exec_onSnd, ha s]
  refine ⟨rfl, h.filter, ?_, ?_, h.up_right, ?_⟩
  · change (a.exec s).2.withLedger l = (a.exec s).2.withLedger _
    rw [hkept]
    exact congrArg _ hl
  · change (a.exec s).2.ledger.switch.Up
    rw [hkept]
    exact h.up
  · funext id
    rw [found?, found?, hkept]
    exact congrFun h.found id

theorem writerChain_agrees (id : TxnId) : Agrees Peers (writerChain id) (writerChain id) := by
  intro p q h
  obtain ⟨p', hp, hpp⟩ := exec_writerChain h.up id
  obtain ⟨q', hq, hqq⟩ := exec_writerChain h.up_right id
  rw [hp, hq, h.found, h.maxDepth]
  exact ⟨rfl, hpp.symm.trans (h.trans hqq)⟩

theorem announce_agrees (n : Notice) : Agrees Peers (announce n) (announce n) := by
  refine .bind_get fun p q h => ?_
  rw [h.sink]
  split
  · exact .pure _
  · exact .pure _
  · exact fun p q h => ⟨rfl, congrArg (fun f => { f with noted := n :: f.noted }) h.filter,
      h.services, h.up, h.up_right, h.found⟩
  · exact apart_agrees (offer_apart _ .read n)

theorem skip_agrees (v : RowVersion) (fault : AncestryFault) :
    Agrees Peers (skip v fault) (skip v fault) :=
  .bind (apart_agrees (count_apart _)) fun _ =>
    .bind (apart_agrees (report_apart _)) fun _ => .pure _

theorem classifyByChain_agrees (v : RowVersion) (writer : TxnId) :
    Agrees Peers (classifyByChain v writer) (classifyByChain v writer) := by
  refine .bind (.attempt (writerChain_agrees writer)) fun chain => ?_
  cases chain with
  | error e =>
    cases e with
    | unresolvable fault => exact skip_agrees v fault
    | _ => exact .throw _
  | ok chain =>
    refine .bind_get fun p q h => ?_
    rw [h.verdict]
    split
    · exact skip_agrees v _
    · split
      · exact .bind (announce_agrees _) fun _ => .pure _
      · exact .pure _

theorem classify_agrees (v : RowVersion) : Agrees Peers (classify v) (classify v) := by
  rw [classify.eq_def]
  split
  · exact skip_agrees v .noWriter
  · refine .bind_get fun p q h => ?_
    rw [h.ownVersion?]
    split
    · exact .pure _
    · split
      · refine .bind (apart_agrees (report_apart _)) fun _ => .bind_get fun p q h => ?_
        rw [h.atResolution]
        exact .pure _
      · exact classifyByChain_agrees v _

theorem firstVisible_agrees (vs : List RowVersion) :
    Agrees Peers (firstVisible vs) (firstVisible vs) := by
  induction vs with
  | nil => exact .pure _
  | cons v vs ih =>
    refine .bind (classify_agrees v) fun visibility => ?_
    cases visibility with
    | visible => exact .pure _
    | hidden => exact ih

theorem visibleRows_agrees (decided : Option Key) (vs : List RowVersion) :
    Agrees Peers (visibleRows decided vs) (visibleRows decided vs) := by
  induction vs generalizing decided with
  | nil => exact .pure _
  | cons v vs ih =>
    rw [visibleRows]
    split
    · exact ih decided
    · refine .bind (classify_agrees v) fun visibility => ?_
      cases visibility with
      | hidden => exact ih decided
      | visible =>
        refine .bind (ih _) fun _ => ?_
        split <;> exact .pure _

/-- What a filter is asked. -/
inductive Inquiry where
  | classify (v : RowVersion)
  | read (key : Key)
  | scan (start : Key) (stop : Option Key)
  | stateOf (id : TxnId)

/-- What a filter answers. -/
inductive Finding where
  | visibility (v : Visibility)
  | value (value : Option Bytes)
  | rows (rows : List (Key × Bytes))
  | state (e : EffectiveState)

/-- The call of the filter. -/
def Inquiry.run : Inquiry → Act (SnapshotFilter × Services) TxnError Finding
  | classify v => .visibility <$> SnapshotFilter.classify v
  | read key => .value <$> SnapshotFilter.read key
  | scan start stop => .rows <$> SnapshotFilter.scan start stop
  | stateOf id => .state <$> SnapshotFilter.stateOf id

/-- Asked in states that are peers, a filter gives the same answer. -/
theorem Inquiry.run_agrees (i : Inquiry) : Agrees Peers i.run i.run := by
  cases i with
  | classify v => exact (classify_agrees v).map _
  | read key =>
    refine .map (.bind (apart_agrees ((onRows_apart _).wrap _)) fun vs => ?_) _
    exact .bind (firstVisible_agrees vs) fun _ => .pure _
  | scan start stop =>
    refine .map (.bind (apart_agrees ((onRows_apart _).wrap _)) fun vs => ?_) _
    exact visibleRows_agrees none vs
  | stateOf id =>
    refine .map (.bind (writerChain_agrees id) fun chain => ?_) _
    cases effectiveState chain with
    | ok state => exact .pure _
    | error fault => exact .throw _

/-! ## A faithful memo -/

/-- The memo holds terminal records of the ledger. -/
structure Faithful (p : SnapshotFilter × Services) : Prop where
  remembers : p.1.Remembers p.2.ledger
  terminal : ∀ t ∈ p.1.memo, t.state ≠ .active

/-- Terminal records stay as they are. -/
theorem Faithful.grows (h : Faithful p) (hm : q.1.memo = p.1.memo)
    (hg : p.2.ledger.Grows q.2.ledger) : Faithful q := by
  constructor
  · intro t ht
    rw [hm] at ht
    obtain ⟨u, hu, htu⟩ := hg t.id t (h.remembers t ht)
    rw [hu, htu.final (h.terminal t ht)]
  · rw [hm]
    exact h.terminal

/-- With a faithful memo, a filter finds what it would find without. -/
theorem Faithful.peers (h : Faithful p) (hup : p.2.ledger.switch.Up) :
    Peers ({ p.1 with memo := [] }, p.2) p := by
  refine ⟨rfl, rfl, hup, hup, ?_⟩
  funext id
  cases hm : p.1.memo.find? (·.id = id) with
  | none => simp [found?, hm]
  | some t =>
    have hid : t.id = id := by simpa using List.find?_some hm
    have hrecord := h.remembers t (List.mem_of_find?_eq_some hm)
    rw [hid] at hrecord
    simp [found?, hm, hrecord]

/-- Reader, ancestors and limits stay, and so does a faithful memo. -/
structure Stays (p q : SnapshotFilter × Services) : Prop where
  filter : q.1 = { p.1 with memo := q.1.memo, noted := q.1.noted }
  faithful : Faithful p → Faithful q

theorem Stays.refl (p : SnapshotFilter × Services) : Stays p p := ⟨rfl, id⟩

theorem Stays.trans (p q r : SnapshotFilter × Services) (h : Stays p q) (h' : Stays q r) :
    Stays p r :=
  ⟨by rw [h'.filter, h.filter], fun hp => h'.faithful (h.faithful hp)⟩

theorem stays_of_grows {f : SnapshotFilter} {s s' : Services}
    (hg : s.ledger.Grows s'.ledger) : Stays (f, s) (f, s') :=
  ⟨rfl, fun h => h.grows rfl hg⟩

theorem apart_stays {α : Type} {a : Act Services TxnError α} (ha : Apart a) :
    Keeps Stays (onSnd a) := fun p =>
  stays_of_grows (.of_txns (congrArg Ledger.txns (ha.ledger p.2)))

/-- A look-up adds nothing to the memo but a terminal record. -/
theorem lookUp_stays (id : TxnId) : Keeps Stays (lookUp id) := by
  rintro ⟨f, s⟩
  have hnext : Stays (f, s) (f, s.withLedger s.nextLedger) := stays_of_grows (.of_txns rfl)
  rw [lookUp, exec_bind_ok (exec_get _)]
  cases hm : f.memo.find? (·.id = id) with
  | some t => exact .refl _
  | none =>
    rcases exec_fetch_cases id s with he | he
    · simpa [exec_bind, he] using hnext
    · cases hf : s.ledger.find? id with
      | none => simpa [exec_bind, he, hf] using hnext
      | some t =>
        cases ht : t.state.isTerminal with
        | false => simpa [exec_bind, he, hf, ht] using hnext
        | true =>
          simp only [exec_bind, exec_onSnd, he, hf, ht, if_true, exec_modify, exec_pure]
          refine ⟨rfl, fun h => ⟨fun u hu => ?_, fun u hu => ?_⟩⟩ <;>
            rcases List.mem_cons.1 hu with rfl | hu
          · exact Ledger.id_of_find? hf ▸ hf
          · exact h.remembers u hu
          · intro ha
            rw [ha] at ht
            cases ht
          · exact h.terminal u hu

theorem classifying_stays : Classifying Stays fun _ => True where
  refl := .refl
  trans := .trans
  lookUp id := .of_keeps (lookUp_stays id) fun _ => trivial
  fault _ := trivial
  note _ _ := ⟨rfl, fun h => ⟨h.remembers, h.terminal⟩⟩
  offer h n := .of_keeps (apart_stays (offer_apart h .read n)) fun _ => trivial
  count := .of_keeps (apart_stays (count_apart _)) fun _ => trivial
  report e := .of_keeps (apart_stays (report_apart e)) fun _ => trivial

/-- Whether or not the services answer, no inquiry makes a faithful memo unfaithful. -/
theorem Inquiry.run_stays (i : Inquiry) : Keeps Stays i.run := by
  have h := classifying_stays
  cases i with
  | classify v => exact (h.classify v).keeps.map _
  | read key =>
    refine .map (.bind .trans (apart_stays ((onRows_apart _).wrap _)) fun vs => ?_) _
    exact .bind .trans (h.firstVisible vs).keeps fun _ => .refl
  | scan start stop =>
    exact .map (.bind .trans (apart_stays ((onRows_apart _).wrap _))
      fun vs => (h.visibleRows none vs).keeps) _
  | stateOf id =>
    refine .map (.bind .trans (h.writerChain id).keeps fun chain => ?_) _
    cases effectiveState chain <;> exact .refl

/-- A fresh filter remembers what it looked up. -/
theorem load_faithful {reader : Txn} {sink : Option Sink} {maxDepth : Nat} {f : SnapshotFilter}
    {s s' : Services} (hl : (load reader sink maxDepth).exec s = (.ok f, s')) :
    Faithful (f, s') := by
  rw [load, exec_withLocal, Prod.mk.injEq] at hl
  obtain ⟨hok, rfl⟩ := hl
  obtain ⟨ancestors, p, hwalk, hf⟩ := exec_bind_eq_ok (Prod.ext hok rfl)
  have hstart : Faithful (({ reader, sink, maxDepth } : SnapshotFilter), s) :=
    ⟨fun t ht => (by cases ht), fun t ht => (by cases ht)⟩
  have hstays := (classifying_stays.ancestorsOf reader).keeps ({ reader, sink, maxDepth }, s)
  rw [exec_wrap, Prod.mk.injEq] at hwalk
  rw [hwalk.2] at hstays
  cases hf
  exact ⟨(hstays.faithful hstart).remembers, (hstays.faithful hstart).terminal⟩

/-! ## Runs -/

theorem create_grows (t : Txn) (s : Services) :
    s.ledger.Grows ((onLedger (Ledger.create t)).exec s).2.ledger := by
  rcases exec_create_cases t s with ⟨e, he⟩ | ⟨hf, he⟩ <;> rw [he]
  · exact .of_txns rfl
  · exact (Ledger.grows_insert hf).trans (.of_txns rfl)

/-- No call changes a terminal record. -/
theorem update_grows {change : Txn → Txn} (h : ∀ t : Txn, t.state = .active → t.Becomes (change t))
    (id : TxnId) (s : Services) :
    s.ledger.Grows ((onLedger (Ledger.update id change)).exec s).2.ledger := by
  rcases exec_update_cases id change s with ⟨e, he, -⟩ | ⟨t, ht, ha, he⟩ <;> rw [he]
  · exact .of_txns rfl
  · rw [← Ledger.id_of_find? ht] at ht
    exact (Ledger.grows_replace ht (h t ha)).trans (.of_txns rfl)

/-- One step of a filter and of the services around it. -/
inductive Step (p : SnapshotFilter × Services) : SnapshotFilter × Services → Prop
  /-- The filter is asked. -/
  | inquire (i : Inquiry) : Step p (i.run.exec p).2
  /-- A transaction is recorded. -/
  | create (t : Txn) : Step p (p.1, ((onLedger (Ledger.create t)).exec p.2).2)
  /-- A transaction is finished. -/
  | finish (id : TxnId) (o : Outcome) : Step p (p.1, ((onLedger (Ledger.finish id o)).exec p.2).2)
  /-- A transaction is granted a table. -/
  | grant (id : TxnId) (table : Table) :
      Step p (p.1, ((onLedger (Ledger.grant id table)).exec p.2).2)
  /-- Rows, locks, queues, clock or switches change in any way. -/
  | beside {s : Services} : s.ledger.txns = p.2.ledger.txns → Step p (p.1, s)

/-- Any number of steps. -/
def Run : SnapshotFilter × Services → SnapshotFilter × Services → Prop :=
  Relation.ReflTransGen Step

theorem Step.stays (h : Step p q) : Stays p q := by
  cases h with
  | inquire i => exact i.run_stays p
  | create t => exact stays_of_grows (create_grows t p.2)
  | finish id o => exact stays_of_grows (update_grows (fun t ht => .finish ht o) id p.2)
  | grant id table => exact stays_of_grows (update_grows (fun t ht => .grant ht table) id p.2)
  | beside h => exact stays_of_grows (.of_txns h)

theorem Run.stays (h : Run p q) : Stays p q := by
  induction h with
  | refl => exact .refl p
  | tail _ step ih => exact ih.trans _ _ _ step.stays

/-- Whatever a filter was asked since it was made, and whatever was recorded and written meanwhile:
while the ledger answers, it gives the answer that a filter with the same reader, ancestors and
limits and an empty memo would give. It reports the same outcomes, and what is counted and logged is
the same. -/
theorem memo_invisible {reader : Txn} {sink : Option Sink} {maxDepth : Nat} {f : SnapshotFilter}
    {s₀ s : Services} (hl : (load reader sink maxDepth).exec s₀ = (.ok f, s)) (h : Run (f, s) p)
    (hup : p.2.ledger.switch.Up) (i : Inquiry) :
    ∃ x p' q', i.run.exec p = (x, p') ∧
      i.run.exec ({ f with memo := [], noted := p.1.noted }, p.2) = (x, q') ∧
      p'.1.noted = q'.1.noted ∧
      p'.2 = { q'.2 with ledger := { q'.2.ledger with switch := p'.2.ledger.switch } } := by
  have hfilter : { f with memo := [], noted := p.1.noted } = { p.1 with memo := [] } := by
    rw [h.stays.filter]
  obtain ⟨hanswer, hafter⟩ := i.run_agrees _ _ ((h.stays.faithful (load_faithful hl)).peers hup)
  rw [hfilter]
  rcases hp : i.run.exec p with ⟨x, p'⟩
  rcases hq : i.run.exec ({ p.1 with memo := [] }, p.2) with ⟨y, q'⟩
  rw [hp, hq] at hanswer hafter
  obtain rfl : y = x := hanswer
  exact ⟨y, p', q', rfl, rfl, (congrArg noted hafter.filter :), hafter.services⟩

/-! ## A writer that is looked up before and after its commit -/

/-- A reader and a writer. -/
def watchedServices : Services where
  ledger := { txns := [.root 5 5 .snapshot, .root 1 1 .snapshot] }

/-- The filter of the reader. -/
def watchingFilter : SnapshotFilter where
  reader := .root 5 5 .snapshot
  sink := some .recorder
  maxDepth := 4

/-- A version of the writer. -/
def watchedVersion : RowVersion where
  key := [1]
  writer := some 1
  value := some [10]

/-- The version was classified, its writer committed. -/
def watchedCommit : SnapshotFilter × Services :=
  let p := ((Inquiry.classify watchedVersion).run.exec (watchingFilter, watchedServices)).2
  (p.1, ((onLedger (Ledger.finish 1 (.committed 2 (some 2)))).exec p.2).2)

/-- The version was classified again. -/
def watchedTwice : SnapshotFilter × Services :=
  ((Inquiry.classify watchedVersion).run.exec watchedCommit).2

theorem run_watchedTwice : Run (watchingFilter, watchedServices) watchedTwice :=
  .tail (.tail (.single (.inquire _)) (.finish 1 _)) (.inquire _)

/-- The general rule at this run: the commit is remembered by now, and the version visible as it is
to a filter that remembers nothing. -/
theorem memo_invisible_watched :
    watchedTwice.1.memo = [(Txn.root 1 1 .snapshot).finish (.committed 2 (some 2))] ∧
    ∃ x p' q', (Inquiry.classify watchedVersion).run.exec watchedTwice = (x, p') ∧
      x = .ok (.visibility .visible) ∧
      (Inquiry.classify watchedVersion).run.exec
        ({ watchingFilter with memo := [], noted := watchedTwice.1.noted }, watchedTwice.2) =
          (x, q') ∧
      p'.1.noted = q'.1.noted ∧
      p'.2 = { q'.2 with ledger := { q'.2.ledger with switch := p'.2.ledger.switch } } := by
  have hl : (load (.root 5 5 .snapshot) (some .recorder) 4).exec watchedServices =
      (.ok watchingFilter, watchedServices) := rfl
  obtain ⟨x, p', q', hp, hq, hnoted, hservices⟩ :=
    memo_invisible hl run_watchedTwice (fun _ _ => rfl) (.classify watchedVersion)
  have hvisible : ((Inquiry.classify watchedVersion).run.exec watchedTwice).1 =
      .ok (.visibility .visible) := rfl
  rw [hp] at hvisible
  exact ⟨rfl, x, p', q', hp, hvisible, hq, hnoted, hservices⟩

end SnapshotFilter

end NestedTxn
