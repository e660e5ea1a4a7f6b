import NestedTxn.Text.Utf8
import NestedTxn.Txn.Basic

/-!
# Row versions

* `RowVersion`: one version of a row, tagged with the transaction that wrote it.
* `Resolution`: the final outcome of a writer, cached on the versions it wrote.
-/

namespace NestedTxn

/-- Key of a row. -/
abbrev Key := Bytes

/-- Final outcome of a writer, cached on the versions it wrote. -/
inductive Resolution where
  /-- The writer is effectively committed at `commitTs`. -/
  | committed (commitTs : Timestamp)
  /-- The writer is effectively rolled back. -/
  | rolledBack
deriving DecidableEq

/-- One version of a row. -/
structure RowVersion where
  /-- Row key. -/
  key : Key
  /-- The transaction that wrote the version; `none` for foreign or corrupt writes. -/
  writer : Option TxnId := none
  /-- Payload; `none` marks a delete. -/
  value : Option Bytes := none
  /-- Cached outcome of the writer, if it has been resolved. -/
  resolution : Option Resolution := none
deriving DecidableEq

/-- Whether the version deletes its row. -/
def RowVersion.isTombstone (v : RowVersion) : Bool :=
  v.value.isNone

end NestedTxn
