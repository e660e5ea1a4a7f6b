import NestedTxn.Text.File
import NestedTxn.Txn.Basic

/-!
# Settings

* `Config`: the settings of the transaction core, with their defaults.
* `Config.validate`: refuses the settings that the core cannot run with.
-/

namespace NestedTxn

/-- Settings of the transaction core. -/
structure Config where
  /-- Start every connection with savepoints suppressed. -/
  ignoreSavepoints : Bool := false
  /-- Bound of the queue of resolutions. -/
  resolverQueueCapacity : Nat := 1024
  /-- Cache final outcomes back onto row versions. -/
  readResolution : Bool := true
  /-- Longest parent chain walked before the chain is declared malformed. -/
  maxAncestorDepth : UInt64 := 64
  /-- Isolation level of new root transactions. -/
  defaultIsolation : Isolation := .snapshot
deriving DecidableEq

/-- Why settings are refused. -/
inductive ConfigFault where
  /-- The queue of resolutions could hold nothing. -/
  | zeroQueueCapacity
  /-- No chain could be walked. -/
  | zeroAncestorDepth
  /-- The file at `path` cannot be read. -/
  | unreadable (path : String) (cause : FileFault)
  /-- The text does not describe settings. -/
  | malformed
deriving DecidableEq

/-- The text of a fault of the settings. -/
def ConfigFault.message : ConfigFault → String
  | .zeroQueueCapacity => "resolver_queue_capacity must be positive"
  | .zeroAncestorDepth => "max_ancestor_depth must be positive"
  | .unreadable path cause => s!"{path}: {cause.message}"
  | .malformed => "malformed settings"

/-- Refuse settings that the core cannot run with. -/
def Config.validate (c : Config) : Except ConfigFault Unit :=
  if c.resolverQueueCapacity = 0 then .error .zeroQueueCapacity
  else if c.maxAncestorDepth = 0 then .error .zeroAncestorDepth
  else .ok ()

end NestedTxn
