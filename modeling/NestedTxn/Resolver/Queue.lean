import NestedTxn.Row.Basic

/-!
# Queues of resolutions

* `Notice`: that a version of a row was written by a transaction with a known final outcome.
  `Message`: a notice for the writer of a queue, or the word that it is to stop.
* `Queue`: the messages waiting for the writer, oldest first. A full queue refuses the newest
  notice, a closed one refuses all. `Queue.pending`: the notices among them.
* `Queue.close`: what a writer that stops leaves.
* `Queue.isOversized`: no queue can be asked to hold that many.
* `Queue.burst`, `Queue.bursts`: how many messages are handled at a time, and how often that takes
  place until all are.
* `Queue.length_push`: a queue never holds more notices than its bound.
-/

namespace NestedTxn

/-- The outcome of the writer of a version. -/
structure Notice where
  /-- Row key of the version. -/
  key : Key
  /-- Writer of the version. -/
  writer : TxnId
  /-- Final outcome of the writer. -/
  resolution : Resolution
deriving DecidableEq

/-- A message for the writer of a queue. -/
inductive Message where
  /-- A notice is to be written back. -/
  | notice (n : Notice)
  /-- The writer is to stop. -/
  | stop
deriving DecidableEq

/-- The notice of a message. -/
def Message.notice? : Message → Option Notice
  | notice n => some n
  | stop => none

/-- A bounded queue of notices. -/
structure Queue where
  /-- The number of messages the queue was asked to hold. -/
  capacity : Nat
  /-- The waiting messages, oldest first. -/
  messages : List Message := []
  /-- Whether the writer stopped. -/
  closed : Bool := false
deriving DecidableEq

namespace Queue

/-- The waiting notices, oldest first. -/
def pending (q : Queue) : List Notice := q.messages.filterMap Message.notice?

/-- A queue holds at least one message. -/
def bound (q : Queue) : Nat := max q.capacity 1

/-- Whether a queue cannot be asked to hold that many messages: three bits of a word are taken by
what else is kept about it. -/
def isOversized (capacity : Nat) : Bool := UInt64.size / 8 ≤ capacity

/-- The most messages that are handled before others have their turn. -/
def burst : Nat := 128

/-- How often messages are handled until the queue is empty and it is known to be. -/
def bursts (q : Queue) : Nat := q.messages.length / burst + 1

/-- Whether the queue holds all that it can. -/
def isFull (q : Queue) : Bool := q.bound ≤ q.messages.length

/-- Add a message at the end. -/
def push (q : Queue) (m : Message) : Queue := { q with messages := q.messages ++ [m] }

/-- The queue of a writer that stopped. What still waits is lost. -/
def close (q : Queue) : Queue := { q with messages := [], closed := true }

variable {q : Queue} {n : Notice}

theorem mem_pending : n ∈ q.pending ↔ .notice n ∈ q.messages := by
  rw [pending, List.mem_filterMap]
  constructor
  · rintro ⟨m, hm, hn⟩
    cases m <;> cases hn
    exact hm
  · exact fun h => ⟨_, h, rfl⟩

theorem length_pending_le (q : Queue) : q.pending.length ≤ q.messages.length :=
  List.length_filterMap_le _ _

@[simp] theorem pending_close (q : Queue) : q.close.pending = [] := rfl

@[simp] theorem pending_push_notice (q : Queue) (n : Notice) :
    (q.push (.notice n)).pending = q.pending ++ [n] :=
  List.filterMap_append

@[simp] theorem pending_push_stop (q : Queue) : (q.push .stop).pending = q.pending :=
  List.filterMap_append.trans (List.append_nil _)

theorem length_push (h : q.isFull = false) :
    (q.push (.notice n)).pending.length ≤ (q.push (.notice n)).bound := by
  have hlt : q.messages.length < q.bound := by simpa [isFull] using h
  rw [pending_push_notice, List.length_append]
  exact Nat.le_trans (Nat.succ_le_succ q.length_pending_le) hlt

/-- As long as nobody tells the writer to stop, only notices wait. -/
theorem map_pending (h : .stop ∉ q.messages) : q.pending.map .notice = q.messages := by
  unfold pending
  generalize q.messages = ms at h
  induction ms with
  | nil => rfl
  | cons m ms ih =>
    rw [List.mem_cons, not_or] at h
    cases m with
    | notice n => exact congrArg (List.cons _) (ih h.2)
    | stop => exact absurd rfl h.1

end Queue

end NestedTxn
