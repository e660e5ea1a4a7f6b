import NestedTxn.Text.Blank
import NestedTxn.Text.File

/-!
# Paths in a folder

* `Folder`: files in memory, each under the names on the way to it.
* `Folder.find`: what a path leads to that starts in the folder. Empty names and dots stay where
  they are; nothing is known about what lies outside.
-/

namespace NestedTxn

/-- A folder: the names on the way to each file, and its bytes. -/
structure Folder where
  /-- The files. -/
  files : List (List String × Bytes) := []
deriving DecidableEq

namespace Folder

/-- The most bytes that a name may have. -/
def longestName : Nat := 255

/-- The most bytes that a path may have. -/
def longestPath : Nat := 4095

/-- Where a walk stands. -/
inductive Place where
  /-- In the folder below the given names. -/
  | inside (names : List String)
  /-- In a folder around this one. -/
  | around
  /-- At a file. -/
  | file (content : Bytes)
deriving DecidableEq

/-- Whether a name stays where it is. -/
def stays (name : String) : Bool := name = "" || name = "."

/-- Whether there are files further below the given names. -/
def hasBelow (f : Folder) (names : List String) : Bool :=
  f.files.any fun e => names.length < e.1.length && e.1.take names.length = names

/-- One step of a walk. -/
def step (f : Folder) (place : Place) (name : String) : Except FileFault Place :=
  match place with
  | .file _ => .error .behindFile
  | .around =>
    if stays name || name = ".." then .ok .around
    else if longestName < name.utf8ByteSize then .error .nameTooLong
    else .error .missing
  | .inside names =>
    if stays name then .ok (.inside names)
    else if name = ".." then .ok (if names = [] then .around else .inside names.dropLast)
    else if longestName < name.utf8ByteSize then .error .nameTooLong
    else
      match f.files.lookup (names ++ [name]) with
      | some content => .ok (.file content)
      | none =>
        if f.hasBelow (names ++ [name]) then .ok (.inside (names ++ [name])) else .error .missing

/-- What lies at a place. -/
def Place.content : Place → FileContent
  | .file content => .ok content
  | .inside _ | .around => .error .directory

/-- The names in a path. -/
def names (path : String) : List String :=
  (Text.pieces (· = '/') path.toList).map String.ofList

/-- What a path leads to. -/
def find (f : Folder) (path : String) : FileContent :=
  if longestPath < path.utf8ByteSize then .error .nameTooLong
  else ((names path).foldlM f.step (.inside [])).bind Place.content

end Folder

end NestedTxn
