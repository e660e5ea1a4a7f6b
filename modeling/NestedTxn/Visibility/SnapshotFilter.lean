import NestedTxn.Resolver.Writer
import NestedTxn.Visibility.EffectiveState

/-!
# Snapshot visibility

* `SnapshotFilter`: a fixed reader with its ancestors, which classifies row versions as visible or
  hidden. It keeps the terminal transactions that it has looked up, whose records never change.
* `SnapshotFilter.load`: a filter for a reader.
* `SnapshotFilter.verdict`: the visibility of a version whose writer has the given chain, and the
  final outcome of the writer if it was newly found.
* `SnapshotFilter.classify`, `read`, `scan`: one version, the newest visible value of a key, those
  of a range of keys.
-/

namespace NestedTxn

/-- Whether a reader sees a row version. -/
inductive Visibility where
  /-- The reader sees the version. -/
  | visible
  /-- The reader does not see it. -/
  | hidden
deriving DecidableEq

/-- Visible if `b`. -/
def Visibility.ofBool (b : Bool) : Visibility := if b then .visible else .hidden

/-- Where newly found outcomes are reported to. -/
inductive Sink where
  /-- A list that the filter keeps. -/
  | recorder
  /-- Nowhere. -/
  | discard
  /-- Queue number `h`. -/
  | queue (h : Nat)
deriving DecidableEq

/-- Visibility of row versions for one reader. -/
structure SnapshotFilter where
  /-- The transaction that reads. -/
  reader : Txn
  /-- Its strict ancestors as they were when the filter was made, nearest first. -/
  ancestors : List Txn := []
  /-- Where newly found outcomes go. -/
  sink : Option Sink := none
  /-- Longest chain of ancestors that is walked. -/
  maxDepth : Nat
  /-- The terminal transactions looked up so far. -/
  memo : List Txn := []
  /-- The outcomes reported to a recorder, newest first. -/
  noted : List Notice := []
deriving DecidableEq

namespace SnapshotFilter

open Services

/-! ## Decisions -/

/-- Whether a version committed at `ts` is visible to the reader. -/
def atCommit (f : SnapshotFilter) (ts : Timestamp) : Visibility :=
  match f.reader.isolation with
  | .snapshot => .ofBool (ts ≤ f.reader.beginTimestamp)
  | .readCommitted | .readUncommitted => .visible

/-- Whether `id` is the reader or one of its ancestors. -/
def isFamily (f : SnapshotFilter) (id : TxnId) : Bool :=
  id = f.reader.id || f.ancestors.any (·.id = id)

/-- The visibility of versions that the reader or one of its ancestors wrote. -/
def ownVersion? (f : SnapshotFilter) (writer : TxnId) : Option Visibility :=
  if writer = f.reader.id then some .visible
  else (f.ancestors.find? (·.id = writer)).map fun a => .ofBool (a.state ≠ .rolledBack)

/-- The visibility that a marker stands for. -/
def atResolution (f : SnapshotFilter) : Resolution → Visibility
  | .rolledBack => .hidden
  | .committed ts => f.atCommit ts

/-- The visibility of versions whose writer shares an ancestor with the reader: every node below
the shared one has to be committed. `none` if the chain shares no node with the reader's. -/
def familyVisibility? (f : SnapshotFilter) (chain : List Txn) : Option Visibility :=
  match chain.dropWhile fun t => !f.isFamily t.id with
  | [] => none
  | _ :: _ =>
    some (.ofBool ((chain.takeWhile fun t => !f.isFamily t.id).all (·.state = .committed)))

/-- The visibility of versions whose writer has the chain `chain`, and the final outcome of the
writer if it is to be reported. -/
def verdict (f : SnapshotFilter) (chain : List Txn) :
    Except AncestryFault (Visibility × Option Resolution) :=
  match f.familyVisibility? chain with
  | some v => .ok (v, none)
  | none =>
    match effectiveState chain with
    | .error fault => .error fault
    | .ok .rolledBack => .ok (.hidden, some .rolledBack)
    | .ok .active => .ok (.ofBool (f.reader.isolation = .readUncommitted), none)
    | .ok (.committed ts) =>
      match f.atCommit ts with
      | .visible => .ok (.visible, some (.committed ts))
      | .hidden => .ok (.hidden, none)

/-! ## Chains -/

/-- The record of `id`, from the memo if it is there. -/
def lookUp (id : TxnId) : Act (SnapshotFilter × Services) TxnError (Option Txn) := do
  match (← get).1.memo.find? (·.id = id) with
  | some t => return some t
  | none =>
    match ← Act.onSnd (onLedger (Ledger.fetch id)) with
    | none => return none
    | some t =>
      if t.state.isTerminal then
        modify fun s => ({ s.1 with memo := t :: s.1.memo }, s.2)
      return some t

/-- The transactions from an id up to the root, nearest first. At most as many as the first
argument are looked up, none of those in `seen`. -/
def ancestorsFrom :
    Nat → List TxnId → Option TxnId → Act (SnapshotFilter × Services) TxnError (List Txn)
  | _, _, none => return []
  | 0, _, some id => throw (.unresolvable (.malformedAt id))
  | budget + 1, seen, some id => do
    if id ∈ seen then throw (.unresolvable (.malformedAt id))
    match ← lookUp id with
    | none => throw (.unresolvable (.missingAncestor id))
    | some p => return p :: (← ancestorsFrom budget (id :: seen) p.parent)

/-- The strict ancestors of `t`, nearest first. -/
def ancestorsOf (t : Txn) : Act (SnapshotFilter × Services) TxnError (List Txn) := do
  ancestorsFrom (← get).1.maxDepth [t.id] t.parent

/-- The writer `id` and its ancestors, nearest first. -/
def writerChain (id : TxnId) : Act (SnapshotFilter × Services) TxnError (List Txn) := do
  match ← lookUp id with
  | none => throw (.unresolvable (.unknownWriter id))
  | some t => return t :: (← ancestorsOf t)

/-- A broken chain of a reader is malformed. -/
def readerFault : TxnError → TxnError
  | .unresolvable fault => .malformedAncestry fault
  | e => e

/-- A filter for `reader`. The reader is taken as it is given; its ancestors are looked up once
and held fixed. -/
def load (reader : Txn) (sink : Option Sink) (maxDepth : Nat) :
    Act Services TxnError SnapshotFilter :=
  Act.withLocal { reader, sink, maxDepth } do
    let ancestors ← Act.wrap readerFault (ancestorsOf reader)
    return { (← get).1 with ancestors }

/-! ## Classification -/

/-- Report the outcome of a writer. -/
def announce (n : Notice) : Act (SnapshotFilter × Services) TxnError Unit := do
  match (← get).1.sink with
  | none | some .discard => return
  | some .recorder => modify fun s => ({ s.1 with noted := n :: s.1.noted }, s.2)
  | some (.queue h) => Act.onSnd (offer h .read n)

/-- Hide a version whose writer has no effective state. -/
def skip (v : RowVersion) (fault : AncestryFault) :
    Act (SnapshotFilter × Services) TxnError Visibility := do
  Act.onSnd (count .unresolvable)
  Act.onSnd (report (.skippedVersion v.key v.writer fault))
  return .hidden

/-- Classify a version without a marker by the chain of its writer. -/
def classifyByChain (v : RowVersion) (writer : TxnId) :
    Act (SnapshotFilter × Services) TxnError Visibility := do
  match ← Act.attempt (writerChain writer) with
  | .error (.unresolvable fault) => skip v fault
  | .error e => throw e
  | .ok chain =>
    match (← get).1.verdict chain with
    | .error fault => skip v fault
    | .ok (visibility, outcome) =>
      if let some r := outcome then announce ⟨v.key, writer, r⟩
      return visibility

/-- Classify a row version. Only an outage is an error; a version whose writer cannot be resolved
is reported and hidden. -/
def classify (v : RowVersion) : Act (SnapshotFilter × Services) TxnError Visibility := do
  match v.writer with
  | none => skip v .noWriter
  | some writer =>
    match (← get).1.ownVersion? writer with
    | some visibility => return visibility
    | none =>
      match v.resolution with
      | some r =>
        Act.onSnd (report (.usedCached writer r))
        return (← get).1.atResolution r
      | none => classifyByChain v writer

/-- The effective state of `id`. -/
def stateOf (id : TxnId) : Act (SnapshotFilter × Services) TxnError EffectiveState := do
  match effectiveState (← writerChain id) with
  | .ok state => return state
  | .error fault => throw (.unresolvable fault)

/-! ## Reads -/

/-- The first visible version of a list. -/
def firstVisible : List RowVersion → Act (SnapshotFilter × Services) TxnError (Option RowVersion)
  | [] => return none
  | v :: vs => do
    match ← classify v with
    | .visible => return some v
    | .hidden => firstVisible vs

/-- The newest visible value of `key`. A visible delete reads as absent. -/
def read (key : Key) : Act (SnapshotFilter × Services) TxnError (Option Bytes) := do
  let vs ← Act.onSnd (Act.wrap .ofRows (onRows (RowStore.read key)))
  return (← firstVisible vs).bind (·.value)

/-- The first visible value of each key of a list of versions; `decided` is the key whose visible
version was found last. -/
def visibleRows : Option Key → List RowVersion →
    Act (SnapshotFilter × Services) TxnError (List (Key × Bytes))
  | _, [] => return []
  | decided, v :: vs => do
    if decided = some v.key then visibleRows decided vs
    else
      match ← classify v with
      | .hidden => visibleRows decided vs
      | .visible =>
        let rows ← visibleRows (some v.key) vs
        match v.value with
        | some value => return (v.key, value) :: rows
        | none => return rows

/-- The newest visible value of every key of a range, keys ascending. -/
def scan (start : Key) (stop : Option Key) :
    Act (SnapshotFilter × Services) TxnError (List (Key × Bytes)) := do
  let vs ← Act.onSnd (Act.wrap .ofRows (onRows (RowStore.scan start stop)))
  visibleRows none vs

/-- The filter with nothing noted. -/
def forgetNoted (f : SnapshotFilter) : SnapshotFilter := { f with noted := [] }

end SnapshotFilter

end NestedTxn
