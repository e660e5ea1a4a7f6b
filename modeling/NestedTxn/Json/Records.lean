import NestedTxn.Json.Basic
import NestedTxn.Row.Basic
import NestedTxn.Txn.Text

/-!
# The stored form of transactions and row versions

For each type of the core that is stored, how its values are read from JSON (`ofJson?`) and
written to it (`toJson`). A record may be an object or an array of its fields in order; fields
that may be absent may be left out of an object.
-/

namespace NestedTxn

namespace Isolation

/-- The isolation level that a value names. -/
def ofJson? (j : Json) : Option Isolation := j.bare?.bind ofKey?

/-- The isolation level as a value. -/
def toJson (i : Isolation) : Json := .ofString i.key

end Isolation

namespace TxnState

/-- The state that a value names. -/
def ofJson? (j : Json) : Option TxnState := j.bare?.bind ofName?

/-- The state as a value. -/
def toJson (s : TxnState) : Json := .ofString s.name

end TxnState

namespace Destination

/-- The destination that a list of names stands for. -/
def ofJson? (j : Json) : Option Destination := (j.list? Json.string?).map ofList

/-- The destination as the list of its tables. -/
def toJson (d : Destination) : Json := .array (d.tables.map .ofString)

end Destination

namespace Resolution

/-- The outcome that a value names. -/
def ofJson? (j : Json) : Option Resolution :=
  match j.variant? with
  | some ("RolledBack", none) | some ("RolledBack", some .null) => some .rolledBack
  | some ("Committed", some content) => do
    match ← content.record? ["commit_ts"] 0 with
    | [ts] => return .committed (← Json.required Json.word? ts)
    | _ => none
  | _ => none

/-- The outcome as a value. -/
def toJson : Resolution → Json
  | .rolledBack => .ofString "RolledBack"
  | .committed ts => .ofFields [("Committed", .ofFields [("commit_ts", .ofNat ts)])]

end Resolution

namespace RowVersion

/-- The row version that a value describes. -/
def ofJson? (j : Json) : Option RowVersion := do
  match ← j.record? ["key", "writer", "value", "resolution"] 0 with
  | [key, writer, value, resolution] =>
    return {
      key := ← Json.required (Json.list? Json.byte?) key
      writer := ← Json.optional Json.word? writer
      value := ← Json.optional (Json.list? Json.byte?) value
      resolution := ← Json.optional Resolution.ofJson? resolution }
  | _ => none

/-- Bytes as a list of numbers. -/
def bytesToJson (b : Bytes) : Json := .array (b.map fun x => .ofNat x.toNat)

/-- The row version as an object. -/
def toJson (v : RowVersion) : Json := .ofFields [
  ("key", bytesToJson v.key),
  ("writer", .ofOption .ofNat v.writer),
  ("value", .ofOption bytesToJson v.value),
  ("resolution", .ofOption Resolution.toJson v.resolution)]

end RowVersion

namespace Txn

/-- The fields of a stored transaction, in order. -/
def fieldNames : List String :=
  ["id", "begin_timestamp", "parent", "commit_timestamp", "global_commit_timestamp", "isolation",
    "state", "dependent", "additive", "destination", "depth"]

/-- The transaction that a value describes. A missing depth is 0. -/
def ofJson? (j : Json) : Option Txn := do
  match ← j.record? fieldNames 1 with
  | [id, beginTs, parent, commitTs, globalTs, isolation, state, dependent, additive, destination,
      depth] =>
    return {
      id := ← Json.required Json.word? id
      beginTimestamp := ← Json.required Json.word? beginTs
      parent := ← Json.optional Json.word? parent
      commitTimestamp := ← Json.optional Json.word? commitTs
      globalCommitTimestamp := ← Json.optional Json.word? globalTs
      isolation := ← Json.required Isolation.ofJson? isolation
      state := ← Json.required TxnState.ofJson? state
      dependent := ← Json.required Json.bool? dependent
      additive := ← Json.required Json.bool? additive
      destination := ← Json.optional Destination.ofJson? destination
      depth := .ofNat (← Json.withDefault 0 Json.word? depth) }
  | _ => none

/-- The transaction as an object. -/
def toJson (t : Txn) : Json := .ofFields [
  ("id", .ofNat t.id),
  ("begin_timestamp", .ofNat t.beginTimestamp),
  ("parent", .ofOption .ofNat t.parent),
  ("commit_timestamp", .ofOption .ofNat t.commitTimestamp),
  ("global_commit_timestamp", .ofOption .ofNat t.globalCommitTimestamp),
  ("isolation", t.isolation.toJson),
  ("state", t.state.toJson),
  ("dependent", .bool t.dependent),
  ("additive", .bool t.additive),
  ("destination", .ofOption Destination.toJson t.destination),
  ("depth", .ofNat t.depth.toNat)]

end Txn

end NestedTxn
