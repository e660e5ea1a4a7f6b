import NestedTxn.Proofs.Resolver.Marking
import NestedTxn.Proofs.Row.Outages

/-!
# What becomes of notices

* `Desk`: the queues of notices with the rows and the counters. `Desk.Step d m d'`: the move `m`
  leads from `d` to `d'`. A notice is accepted or refused, or the first one that waits is handed to
  the rows, once; a queue is opened; its writer is told to stop, behind all that waits, and closes
  it when it has come to that; the rows become available or not.
* `Desk.Orderly`: no queue holds more than its bound, and none that is closed holds anything.
* `Desk.Balanced d₀ ms d`: the books after the moves `ms`. What was accepted is what was handed over
  and what waits, in this order; the counters count moves; rows changed in their markers only.
* Every step keeps both (`Step.orderly`, `Step.balanced`), so all moves do (`Moves.orderly`,
  `Moves.balanced`). Nothing that was accepted is left when a queue is closed
  (`Moves.handed_of_close`).
-/

namespace NestedTxn

namespace Queue

/-- The messages that wait in queue `h`. -/
def inbox (qs : List Queue) (h : Nat) : List Message := (qs[h]?.map (·.messages)).getD []

/-- The notices among them. -/
def waiting (qs : List Queue) (h : Nat) : List Notice :=
  (inbox qs h).filterMap Message.notice?

/-- Whether queue `h` is closed. -/
def shut (qs : List Queue) (h : Nat) : Bool := qs[h]?.any (·.closed)

variable {qs : List Queue} {q q' : Queue} {h i : Nat}

theorem inbox_eq (hq : qs[h]? = some q) : inbox qs h = q.messages := by
  rw [inbox, hq]
  rfl

theorem waiting_eq (hq : qs[h]? = some q) : waiting qs h = q.pending := by
  rw [waiting, inbox_eq hq]
  rfl

theorem shut_eq (hq : qs[h]? = some q) : shut qs h = q.closed := by
  rw [shut, hq]
  rfl

/-- A new queue is the last one. -/
theorem getElem?_create (qs : List Queue) (new : Queue) (h : Nat) :
    (qs ++ [new])[h]? = qs[h]? ∨ qs[h]? = none ∧ (qs ++ [new])[h]? = some new := by
  rcases Nat.lt_trichotomy h qs.length with hlt | rfl | hgt
  · exact .inl (List.getElem?_append_left hlt)
  · exact .inr (by simp)
  · refine .inl ?_
    have hlen : (qs ++ [new]).length ≤ h := by
      rw [List.length_append]
      exact hgt
    rw [List.getElem?_eq_none hlen, List.getElem?_eq_none (Nat.le_of_lt hgt)]

theorem inbox_create (qs : List Queue) (h capacity : Nat) :
    inbox (qs ++ [{ capacity := capacity }]) h = inbox qs h := by
  unfold inbox
  rcases getElem?_create qs { capacity := capacity } h with hsame | ⟨hnone, hnew⟩
  · rw [hsame]
  · rw [hnone, hnew]
    rfl

theorem shut_create (qs : List Queue) (h capacity : Nat) :
    shut (qs ++ [{ capacity := capacity }]) h = shut qs h := by
  unfold shut
  rcases getElem?_create qs { capacity := capacity } h with hsame | ⟨hnone, hnew⟩
  · rw [hsame]
  · rw [hnone, hnew]
    rfl

section

variable (hq : qs[i]? = some q)
include hq

theorem getElem?_set_of : (qs.set i q')[h]? = if i = h then some q' else qs[h]? := by
  obtain ⟨hlt, -⟩ := List.getElem?_eq_some_iff.1 hq
  rw [List.getElem?_set]
  simp [hlt]

theorem inbox_set : inbox (qs.set i q') h = if i = h then q'.messages else inbox qs h := by
  rw [inbox, getElem?_set_of hq]
  split <;> rfl

/-- A message is put behind those that wait. -/
theorem inbox_push (m : Message) :
    inbox (qs.set i (q.push m)) h = if i = h then q.messages ++ [m] else inbox qs h :=
  inbox_set hq

/-- Nothing waits in a queue that is closed. -/
theorem inbox_close : inbox (qs.set i q.close) h = if i = h then [] else inbox qs h := inbox_set hq

theorem waiting_set : waiting (qs.set i q') h = if i = h then q'.pending else waiting qs h := by
  rw [waiting, inbox_set hq]
  split <;> rfl

theorem shut_set : shut (qs.set i q') h = if i = h then q'.closed else shut qs h := by
  rw [shut, getElem?_set_of hq]
  split <;> rfl

theorem capacities_set (hcap : q'.capacity = q.capacity) :
    (qs.set i q').map (·.capacity) = qs.map (·.capacity) := by
  refine List.ext_getElem? fun j => ?_
  rw [List.getElem?_map, List.getElem?_map, getElem?_set_of hq]
  split
  · next hij =>
    subst hij
    simp [hq, hcap]
  · rfl

end

end Queue

/-- The queues of notices, with the rows that they are written back to and the counters. -/
structure Desk where
  /-- The queues, by number. -/
  queues : List Queue
  /-- The rows. -/
  rows : RowStore
  /-- What was counted. -/
  counters : Counters

/-- What happens at a desk. -/
inductive Move where
  /-- A queue is opened. -/
  | create (capacity : Nat)
  /-- Queue `h` accepts a notice. -/
  | accept (h : Nat) (n : Notice)
  /-- Queue `h` refuses a notice. -/
  | refuse (h : Nat) (n : Notice)
  /-- The first notice of queue `h` is handed to the rows, which store it or not. -/
  | hand (h : Nat) (n : Notice) (stored : Bool)
  /-- The writer of queue `h` is told to stop. -/
  | stop (h : Nat)
  /-- Queue `h` is closed. -/
  | close (h : Nat)
  /-- The rows become available or not. -/
  | outage (switch : Switch)

namespace Move

/-- The notice that was offered, and to which queue. -/
def offered? : Move → Option (Nat × Notice)
  | accept h n | refuse h n => some (h, n)
  | create _ | hand .. | stop _ | close _ | outage _ => none

/-- The notice that queue `h` accepted. -/
def accepted? (h : Nat) : Move → Option Notice
  | accept i n => if i = h then some n else none
  | create _ | refuse .. | hand .. | stop _ | close _ | outage _ => none

/-- The notice that was handed over from queue `h`. -/
def handed? (h : Nat) : Move → Option Notice
  | hand i n _ => if i = h then some n else none
  | create _ | accept .. | refuse .. | stop _ | close _ | outage _ => none

/-- The capacity of the queue that was opened. -/
def opened? : Move → Option Nat
  | create capacity => some capacity
  | accept .. | refuse .. | hand .. | stop _ | close _ | outage _ => none

/-- Whether a notice was accepted. -/
def isAccept : Move → Bool
  | accept .. => true
  | create _ | refuse .. | hand .. | stop _ | close _ | outage _ => false

/-- Whether a notice was refused. -/
def isRefuse : Move → Bool
  | refuse .. => true
  | create _ | accept .. | hand .. | stop _ | close _ | outage _ => false

/-- Whether a notice was stored. -/
def isStored : Move → Bool
  | hand _ _ stored => stored
  | create _ | accept .. | refuse .. | stop _ | close _ | outage _ => false

/-- Every offer is accepted or refused. -/
theorem length_offered (ms : List Move) :
    (ms.filterMap offered?).length = ms.countP isAccept + ms.countP isRefuse := by
  induction ms with
  | nil => rfl
  | cons m ms ih =>
    cases m <;> simp [List.filterMap_cons, List.countP_cons, offered?, isAccept, isRefuse, ih] <;>
      omega

end Move

namespace Desk

/-- One move. -/
inductive Step (d : Desk) : Move → Desk → Prop
  /-- A new queue is empty. -/
  | create (capacity : Nat) :
      Step d (.create capacity) { d with queues := d.queues ++ [{ capacity }] }
  /-- A queue that is open and not full takes the notice. -/
  | accept {h : Nat} {q : Queue} (n : Notice) : d.queues[h]? = some q → q.closed = false →
      q.isFull = false → Step d (.accept h n)
        { d with
          queues := d.queues.set h (q.push (.notice n))
          counters := d.counters.bump .enqueued }
  /-- One that is closed or full does not. -/
  | refuse {h : Nat} {q : Queue} (n : Notice) : d.queues[h]? = some q →
      q.closed = true ∨ q.isFull = true →
      Step d (.refuse h n) { d with counters := d.counters.bump .dropped }
  /-- The first notice is handed to the rows. It is forgotten even if they do not store it. -/
  | hand {h : Nat} {q : Queue} {n : Notice} {rest : List Message} {r : RowStore}
      {x : Except RowFault Unit} : d.queues[h]? = some q → q.messages = .notice n :: rest →
      (RowStore.mark n.key n.writer n.resolution).exec
        { d.rows with switch := d.rows.switch.advance } = (x, r) →
      Step d (.hand h n x.isOk)
        { queues := d.queues.set h { q with messages := rest }
          rows := r
          counters := if x.isOk then d.counters.bump .applied else d.counters }
  /-- The word to stop is put behind all that waits. -/
  | stop {h : Nat} {q : Queue} : d.queues[h]? = some q → q.closed = false →
      Step d (.stop h) { d with queues := d.queues.set h (q.push .stop) }
  /-- A writer that comes to it closes the queue. Nothing is behind it. -/
  | close {h : Nat} {q : Queue} : d.queues[h]? = some q → q.messages = [.stop] →
      Step d (.close h) { d with queues := d.queues.set h q.close }
  /-- The switch of the rows is replaced. -/
  | outage (switch : Switch) : Step d (.outage switch) { d with rows := { d.rows with switch } }

/-- One move after the other. -/
inductive Moves (d : Desk) : List Move → Desk → Prop
  | nil : Moves d [] d
  | snoc {ms : List Move} {m : Move} {d' d'' : Desk} : Moves d ms d' → d'.Step m d'' →
      Moves d (ms ++ [m]) d''

/-- No queue holds more notices than its bound, and none that is closed holds anything. -/
structure Orderly (d : Desk) : Prop where
  bounded : ∀ q ∈ d.queues, q.pending.length ≤ q.bound
  emptied : ∀ q ∈ d.queues, q.closed = true → q.messages = []

/-- The books after the moves `ms`. -/
structure Balanced (d₀ : Desk) (ms : List Move) (d : Desk) : Prop where
  /-- What was accepted is what was handed over and what waits, in this order. -/
  conserved : ∀ h, Queue.waiting d₀.queues h ++ ms.filterMap (Move.accepted? h) =
    ms.filterMap (Move.handed? h) ++ Queue.waiting d.queues h
  enqueued : d.counters.enqueued = d₀.counters.enqueued + ms.countP Move.isAccept
  dropped : d.counters.dropped = d₀.counters.dropped + ms.countP Move.isRefuse
  applied : d.counters.applied = d₀.counters.applied + ms.countP Move.isStored
  capacities : d.queues.map (·.capacity) =
    d₀.queues.map (·.capacity) ++ ms.filterMap Move.opened?
  closed : ∀ h, Queue.shut d.queues h = true ↔ Queue.shut d₀.queues h = true ∨ Move.close h ∈ ms
  /-- Rows changed in their markers only. -/
  unmarked : d.rows.versions.map RowVersion.unmarked = d₀.rows.versions.map RowVersion.unmarked

variable {d₀ d d' d'' : Desk} {m : Move} {ms ms' : List Move} {h i : Nat} {q q' : Queue}

theorem Moves.append (hms : Moves d ms d') (hms' : Moves d' ms' d'') :
    Moves d (ms ++ ms') d'' := by
  induction hms' with
  | nil => rwa [List.append_nil]
  | snoc _ hstep ih =>
    rw [← List.append_assoc]
    exact .snoc ih hstep

theorem Step.moves (hstep : d.Step m d') : Moves d [m] d' := .snoc .nil hstep

theorem Orderly.set (ho : d.Orderly) (hb : q.pending.length ≤ q.bound)
    (he : q.closed = true → q.messages = []) (r : RowStore) (c : Counters) :
    Orderly { queues := d.queues.set i q, rows := r, counters := c } := by
  constructor <;> intro u hu <;> rcases List.mem_or_eq_of_mem_set hu with hu | rfl
  · exact ho.bounded u hu
  · exact hb
  · exact ho.emptied u hu
  · exact he

/-! ## Steps -/

theorem Step.orderly (hstep : d.Step m d') (ho : d.Orderly) : d'.Orderly := by
  cases hstep with
  | create capacity =>
    constructor <;> intro u hu <;> rcases List.mem_append.1 hu with hu | hu
    · exact ho.bounded u hu
    · obtain rfl := List.mem_singleton.1 hu
      exact Nat.zero_le _
    · exact ho.emptied u hu
    · obtain rfl := List.mem_singleton.1 hu
      exact fun _ => rfl
  | accept n hq hopen hfull =>
    refine ho.set (Queue.length_push hfull) (fun hclosed => ?_) _ _
    rw [show (Queue.push _ _).closed = _ from hopen] at hclosed
    cases hclosed
  | refuse n hq hno => exact ⟨ho.bounded, ho.emptied⟩
  | hand hq hm _ =>
    have hmem := List.mem_of_getElem? hq
    have hlen := ho.bounded _ hmem
    have hnil := ho.emptied _ hmem
    rw [Queue.pending, hm] at hlen
    rw [hm] at hnil
    refine ho.set ?_ ?_ _ _
    · exact Nat.le_of_succ_le hlen
    · exact fun hclosed => absurd (hnil hclosed) (List.cons_ne_nil _ _)
  | stop hq hopen =>
    refine ho.set ?_ (fun hclosed => ?_) _ _
    · rw [Queue.pending_push_stop]
      exact ho.bounded _ (List.mem_of_getElem? hq)
    · rw [show (Queue.push _ _).closed = _ from hopen] at hclosed
      cases hclosed
  | close hq hm => exact ho.set (Nat.zero_le _) (fun _ => rfl) _ _
  | outage switch => exact ⟨ho.bounded, ho.emptied⟩

theorem mark_unmarked (r : RowStore) (n : Notice) :
    ((RowStore.mark n.key n.writer n.resolution).exec r).2.versions.map RowVersion.unmarked =
      r.versions.map RowVersion.unmarked := by
  cases hon : r.switch.on with
  | false => rw [(RowStore.Needs.mark n.key n.writer n.resolution).exec_off hon]
  | true =>
    rw [RowStore.exec_mark hon]
    split
    · rfl
    · exact RowStore.unmarked_resolve r n.key n.writer n.resolution

section

variable (hq : d.queues[i]? = some q)
include hq

/-- A move at one queue leaves the others alone. -/
theorem conserved_set (hothers : ∀ h, i ≠ h → m.accepted? h = none ∧ m.handed? h = none)
    (hi : q.pending ++ (m.accepted? i).toList = (m.handed? i).toList ++ q'.pending) (h : Nat) :
    Queue.waiting d.queues h ++ [m].filterMap (Move.accepted? h) =
      [m].filterMap (Move.handed? h) ++ Queue.waiting (d.queues.set i q') h := by
  rw [Queue.waiting_set hq]
  split
  · next hih =>
    subst hih
    rw [Queue.waiting_eq hq]
    cases ha : m.accepted? i <;> cases hh : m.handed? i <;>
      simpa [List.filterMap_cons, ha, hh] using hi
  · next hih =>
    obtain ⟨ha, hh⟩ := hothers h hih
    simp [ha, hh]

theorem capacities_set (hcap : q'.capacity = q.capacity) (hnone : m.opened? = none) :
    (d.queues.set i q').map (·.capacity) =
      d.queues.map (·.capacity) ++ [m].filterMap Move.opened? := by
  rw [Queue.capacities_set hq hcap, List.filterMap_cons_none hnone]
  exact (List.append_nil _).symm

theorem closed_set (hi : q'.closed = true ↔ q.closed = true ∨ .close i = m)
    (hothers : ∀ h, i ≠ h → .close h ≠ m) (h : Nat) :
    Queue.shut (d.queues.set i q') h = true ↔
      Queue.shut d.queues h = true ∨ Move.close h ∈ [m] := by
  rw [Queue.shut_set hq, List.mem_singleton]
  split
  · next hih =>
    subst hih
    rw [Queue.shut_eq hq, hi]
  · next hih => simp [hothers h hih]

end

/-- The books after one move. -/
theorem Step.balanced (hstep : d.Step m d') : d.Balanced [m] d' := by
  cases hstep with
  | create capacity =>
    refine ⟨fun h => ?_, rfl, rfl, rfl, List.map_append, fun h => ?_, rfl⟩
    · rw [Queue.waiting, Queue.waiting, Queue.inbox_create]
      exact List.append_nil _
    · rw [Queue.shut_create]
      simp
  | @accept i q n hq hopen hfull =>
    refine ⟨conserved_set hq (fun h hih => ?_) ?_, rfl, rfl, rfl, capacities_set hq rfl rfl,
      closed_set hq (by simp [Queue.push]) (by simp), rfl⟩
    · simp [Move.accepted?, Move.handed?, hih]
    · simp [Move.accepted?, Move.handed?]
  | refuse n hq hno =>
    exact ⟨fun h => List.append_nil _, rfl, rfl, rfl, (List.append_nil _).symm,
      fun h => by simp, rfl⟩
  | @hand i q n rest r x hq hm hx =>
    have hrows := mark_unmarked { d.rows with switch := d.rows.switch.advance } n
    rw [hx] at hrows
    refine ⟨conserved_set hq (fun h hih => ?_) ?_, ?_, ?_, ?_, capacities_set hq rfl rfl,
      closed_set hq (by simp) (by simp), hrows⟩
    · simp [Move.accepted?, Move.handed?, hih]
    · simp [Move.accepted?, Move.handed?, Queue.pending, hm, Message.notice?]
    · cases x <;> rfl
    · cases x <;> rfl
    · cases x <;> rfl
  | @stop i q hq hopen =>
    exact ⟨conserved_set hq (fun h hih => ⟨rfl, rfl⟩) (by simp [Move.accepted?, Move.handed?]),
      rfl, rfl, rfl, capacities_set hq rfl rfl,
      closed_set hq (by simp [Queue.push]) (by simp), rfl⟩
  | @close i q hq hm =>
    refine ⟨conserved_set hq (fun h hih => ⟨rfl, rfl⟩) ?_, rfl, rfl, rfl,
      capacities_set hq rfl rfl, closed_set hq (by simp [Queue.close]) (fun h hih => ?_), rfl⟩
    · rw [Queue.pending, hm]
      rfl
    · simpa using Ne.symm hih
  | outage switch =>
    exact ⟨fun h => List.append_nil _, rfl, rfl, rfl, (List.append_nil _).symm,
      fun h => by simp, rfl⟩

theorem Balanced.refl (d : Desk) : d.Balanced [] d := by
  constructor <;> simp

/-- Books are carried forward. -/
theorem Balanced.trans (hb : d.Balanced ms d') (hb' : d'.Balanced ms' d'') :
    d.Balanced (ms ++ ms') d'' where
  conserved h := by
    rw [List.filterMap_append, List.filterMap_append, ← List.append_assoc, hb.conserved,
      List.append_assoc, hb'.conserved, List.append_assoc]
  enqueued := by rw [hb'.enqueued, hb.enqueued, List.countP_append, Nat.add_assoc]
  dropped := by rw [hb'.dropped, hb.dropped, List.countP_append, Nat.add_assoc]
  applied := by rw [hb'.applied, hb.applied, List.countP_append, Nat.add_assoc]
  capacities := by
    rw [hb'.capacities, hb.capacities, List.filterMap_append, List.append_assoc]
  closed h := by rw [hb'.closed, hb.closed, List.mem_append, or_assoc]
  unmarked := hb'.unmarked.trans hb.unmarked

/-! ## All moves -/

theorem Moves.orderly (hms : Moves d ms d') (ho : d.Orderly) : d'.Orderly := by
  induction hms with
  | nil => exact ho
  | snoc _ hstep ih => exact hstep.orderly ih

theorem Moves.balanced (hms : Moves d ms d') : d.Balanced ms d' := by
  induction hms with
  | nil => exact .refl d
  | snoc _ hstep ih => exact ih.trans hstep.balanced

/-- When a queue is closed, all that it accepted before was handed over: the writer comes to the
word to stop after the notices before it, and there are none behind it. -/
theorem Moves.handed_of_close (hms : Moves d ms d') {before after : List Move}
    (hsplit : ms = before ++ .close h :: after) :
    Queue.waiting d.queues h ++ before.filterMap (Move.accepted? h) =
      before.filterMap (Move.handed? h) := by
  induction hms generalizing after with
  | nil => simp at hsplit
  | snoc hms hstep ih =>
    rcases List.eq_nil_or_concat after with rfl | ⟨after, m', rfl⟩
    · obtain ⟨rfl, hm⟩ := List.append_inj' hsplit rfl
      obtain rfl := List.singleton_inj.1 hm
      cases hstep with
      | close hq hq' =>
        rw [hms.balanced.conserved h, Queue.waiting_eq hq, Queue.pending, hq']
        exact List.append_nil _
    · rw [List.concat_eq_append, ← List.cons_append, ← List.append_assoc] at hsplit
      exact ih (List.append_inj' hsplit rfl).1

end Desk

end NestedTxn
