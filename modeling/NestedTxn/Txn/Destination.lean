import NestedTxn.Ascending

/-!
# Write destinations

* `Destination`: the set of tables that a transaction may write to, in ascending order of their
  names, so that two destinations with the same tables are equal.
* `Destination.of`, `Destination.insert`: a single table, one more table.
* `Destination.covers_insert`: an insertion permits the new table and keeps the old permissions.
-/

namespace NestedTxn

/-- Name of a table. -/
abbrev Table := String

/-- Set of tables a writable transaction may write to. -/
structure Destination where
  /-- The tables, in ascending order. -/
  tables : List Table := []
  /-- Each table is listed once and at its place. -/
  ascending : tables.Pairwise (· < ·) := by simp
deriving DecidableEq

namespace Destination

/-- The destination of a single table. -/
def of (table : Table) : Destination where
  tables := [table]

/-- Add `table`. -/
def insert (d : Destination) (table : Table) : Destination where
  tables := Ascending.insert table d.tables
  ascending := Ascending.pairwise_insert d.ascending

/-- The destination of the tables of a list. -/
def ofList (tables : List Table) : Destination where
  tables := Ascending.ofList tables
  ascending := Ascending.pairwise_ofList tables

/-- The destination of the tables of a list, taken one after the other, and whether each table
after the first was new. -/
def collect : List Table → Destination × List Bool
  | [] => ({}, [])
  | first :: rest =>
    rest.foldl (fun r t => (r.1.insert t, r.2 ++ [decide (t ∉ r.1.tables)])) (of first, [])

/-- Whether writes to `table` are permitted. -/
def covers (d : Destination) (table : Table) : Bool :=
  table ∈ d.tables

@[simp] theorem covers_of {t u : Table} : (of t).covers u = true ↔ u = t := by
  simp [covers, of]

@[simp] theorem covers_insert {d : Destination} {t u : Table} :
    (d.insert t).covers u = true ↔ u = t ∨ d.covers u = true := by
  simp [covers, insert]

@[simp] theorem covers_ofList {l : List Table} {u : Table} :
    (ofList l).covers u = true ↔ u ∈ l := by
  simp [covers, ofList]

end Destination

end NestedTxn
