import NestedTxn.Error
import NestedTxn.Services

/-!
# Writing resolutions back

* `Services.openQueue`, `Services.offer`: a new queue, and one more notice for it. A full or closed
  queue drops the notice.
* `Services.work`: a writer handles the messages of its queue, one after the other. A notice that
  cannot be written back is forgotten. A writer that is told to stop closes its queue for good.
* `Services.runWriters`: every writer that is awake handles what waits in its queue, in bursts.
* `Services.shutQueue`: tells the writer of a queue to stop, and lets the writers run until it has.
-/

namespace NestedTxn

namespace Services

variable {ε : Type}

/-- Open a queue, and give its number. -/
def openQueue (capacity : Nat) : Act Services OpenFault Nat := do
  if Queue.isOversized capacity then throw .oversizedQueue
  let h := (← get).queues.length
  modify fun s =>
    { s with queues := s.queues ++ [{ capacity }], turns := s.turns.wake .direct h }
  return h

/-- Drop a notice. -/
def drop (n : Notice) (reason : DropReason) : Act Services ε Unit := do
  count .dropped
  report (.droppedResolution n.writer reason)

/-- Offer a notice to queue `h`. -/
def offer (h : Nat) (origin : Origin) (n : Notice) : Act Services ε Unit := do
  match (← get).queues[h]? with
  | none => return
  | some q =>
    if q.closed then drop n .closed
    else if q.isFull then drop n .full
    else
      modify fun s =>
        { s with
          queues := s.queues.set h (q.push (.notice n))
          turns := s.turns.wake origin h }
      count .enqueued

/-- Attach the outcome of a notice to its version. -/
def mark (call : Act RowStore RowFault Unit → Act Services RowFault Unit) (n : Notice) :
    Act Services RowFault Unit := do
  call (RowStore.mark n.key n.writer n.resolution)
  report (.resolutionStored n.writer n.resolution)

/-- Write back a notice, or forget it. -/
def writeBack (n : Notice) : Act Services ε Unit := do
  match ← Act.attempt (mark onRows n) with
  | .ok _ => count .applied
  | .error fault => report (.resolutionNotPersisted n.writer fault)

/-- Handle what waits in queue `h`, message by message, at most `budget` of them. A writer that
comes to the end of its budget stays awake. -/
def work (h : Nat) : (budget : Nat) → Act Services ε Unit
  | 0 => modify fun s => { s with turns := s.turns.putFirst h }
  | budget + 1 => do
    match (← get).queues[h]? with
    | none => return
    | some q =>
      match q.messages with
      | [] => return
      | .notice n :: rest =>
        modify fun s => { s with queues := s.queues.set h { q with messages := rest } }
        writeBack n
        work h budget
      | .stop :: _ => modify fun s => { s with queues := s.queues.set h q.close }

/-- Handle a burst of what waits in queue `h`. -/
def runWriter (h : Nat) : Act Services ε Unit := work h Queue.burst

/-- Let every writer that is awake run once. -/
def runTurns : Act Services ε Unit := do
  let hs := (← get).turns.order
  modify fun s => { s with turns := {} }
  hs.forM runWriter

/-- Let the writers run `count` times. -/
def repeatTurns : (count : Nat) → Act Services ε Unit
  | 0 => return
  | count + 1 => do
    runTurns
    repeatTurns count

/-- Let the writers run until all queues are empty. -/
def runWriters : Act Services ε Unit := do
  repeatTurns ((← get).queues.foldl (fun count q => count + q.bursts) 0)

/-- Tell the writer of queue `h` to stop, behind all that waits, and let the writers run until it
has come to that. A full queue takes the word, too: whoever shuts a queue waits for room in it, and
nobody comes in between. A closed queue is left alone. -/
def shutQueue (h : Nat) : Act Services ε Unit := do
  match (← get).queues[h]? with
  | none => return
  | some q =>
    if q.closed then return
    modify fun s =>
      { s with queues := s.queues.set h (q.push .stop), turns := s.turns.wake .direct h }
    repeatTurns q.bursts

end Services

end NestedTxn
