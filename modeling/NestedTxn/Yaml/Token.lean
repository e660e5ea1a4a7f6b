import NestedTxn.Yaml.Scalar
import NestedTxn.Yaml.Tag

/-!
# Tokens

* `Directive`: what is said about a document in front of it. `Directive.read?` reads one.
* `Token`: a part of a YAML text. Of collections only mappings have tokens.
-/

namespace NestedTxn

namespace Yaml

/-- What is said about a document in front of it. -/
inductive Directive where
  /-- The version of the standard. -/
  | version (major minor : Nat)
  /-- What a handle stands for. -/
  | tag (handle : String) (start : Bytes)
deriving DecidableEq

/-- A part of a YAML text. -/
inductive Token where
  | directive (d : Directive)
  | documentStart
  | documentEnd
  /-- The start of a mapping of lines. -/
  | blockStart
  /-- The end of a mapping of lines. -/
  | blockEnd
  /-- The start of a mapping in braces. -/
  | flowStart
  /-- The end of a mapping in braces. -/
  | flowEnd
  /-- The comma between entries in braces. -/
  | flowNext
  /-- What follows is a key. -/
  | key
  /-- What follows is a value. -/
  | value
  /-- The name that the next node gets. -/
  | anchor (name : String)
  /-- The node with a name. -/
  | alias_ (name : String)
  /-- The tag that the next node gets. -/
  | tag (t : Tag)
  | scalar (s : Scalar)
deriving DecidableEq

namespace Directive

/-- The most digits that a part of a version may have. -/
def longestNumber : Nat := 9

/-- The number at the front. -/
def number? (gs : List Glyph) : Option (Nat × List Glyph) := do
  let digits := gs.takeWhile (·.char.isDigit)
  if longestNumber < digits.length then none
  let n ← Numeral.ofDigits? 10 (digits.map Glyph.char)
  return (n, gs.dropWhile (·.char.isDigit))

/-- The version behind its name. -/
def version? (gs : List Glyph) : Option (Directive × List Glyph) := do
  let (major, gs) ← number? (Glyph.skipBlanks gs)
  if Glyph.peek gs ≠ '.' then none
  let (minor, gs) ← number? (gs.drop 1)
  return (.version major minor, gs)

/-- A handle and what it stands for. -/
def tag? (gs : List Glyph) : Option (Directive × List Glyph) := do
  let (handle, gs) ← Tag.handle? (Glyph.skipBlanks gs)
  if !(handle = "!" || Tag.isClosed handle) || !isBlank (Glyph.peek gs) then none
  let (start, gs) ← Tag.someUri? true (Glyph.skipBlanks gs)
  if endsWord (Glyph.peek gs) then return (.tag handle start, gs) else none

/-- Read a directive behind its percent sign, and the rest of its line. -/
def read? (gs : List Glyph) : Option (Directive × List Glyph) := do
  let (name, gs) := takeName gs
  if !endsWord (Glyph.peek gs) then none
  let (d, gs) ←
    match String.ofList name with
    | "YAML" => version? gs
    | "TAG" => tag? gs
    | _ => none
  return (d, ← Glyph.nextLine? gs)

end Directive

end Yaml

end NestedTxn
