import NestedTxn.Config
import NestedTxn.Txn.Text
import NestedTxn.Yaml.Mapping

/-!
# Settings as YAML

* `Config.ofYaml`: the settings that a YAML text describes, after validation. A setting that is
  left out has its default; an unknown, repeated or ill-typed one is refused.
* `Config.ofFile`: the same for the text of a file.
-/

namespace NestedTxn

namespace Config

/-- The settings with one of them set. -/
def set? (c : Config) (name : String) (value : Yaml.Scalar) : Option Config :=
  match name with
  | "ignore_savepoints" => value.truth?.map ({ c with ignoreSavepoints := · })
  | "resolver_queue_capacity" => value.word?.map ({ c with resolverQueueCapacity := · })
  | "read_resolution" => value.truth?.map ({ c with readResolution := · })
  | "max_ancestor_depth" => value.word?.map ({ c with maxAncestorDepth := .ofNat · })
  | "default_isolation" =>
    (value.choice?.bind Isolation.ofKey?).map ({ c with defaultIsolation := · })
  | _ => none

/-- The settings with the entries of a mapping set, none of them twice. -/
def ofEntries? (entries : Yaml.Entries) : Option Config :=
  if (entries.map (·.1.text)).Nodup then
    entries.foldlM (fun c e => c.set? e.1.text e.2) {}
  else none

/-- The settings that a YAML text describes. -/
def ofYaml (text : String) : Except ConfigFault Config :=
  match (Yaml.mapping? text).bind ofEntries? with
  | none => .error .malformed
  | some c => c.validate.map fun _ => c

/-- The settings in the file at `path`, which leads to `content`. -/
def ofFile (path : String) (content : FileContent) : Except ConfigFault Config :=
  match content.text with
  | .error cause => .error (.unreadable path cause)
  | .ok text => ofYaml text

end Config

end NestedTxn
