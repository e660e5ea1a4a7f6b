import NestedTxn.Yaml.Node
import NestedTxn.Yaml.Token.Lexer

/-!
# Mappings of scalars in YAML

`Yaml.mapping?`: the entries of a text that is one document with a mapping of scalars to scalars,
or with nothing. All else is refused: other values, nested collections, a second document, and what
is no YAML.

A name is looked up when the whole document is read. `Anchors` numbers the names as they come: a
new name gets the number of names that there are, and so does a name that is given again. A
reference means the last node that got the number which its name had at that place.
-/

namespace NestedTxn

namespace Yaml

/-- The entries of a mapping in their order. -/
abbrev Entries := List (Scalar × Scalar)

/-- The names given in a document. -/
structure Anchors where
  /-- The number of each name. -/
  numbers : List (String × Nat) := []
  /-- The nodes that got a number, newest first; a mapping is no scalar. -/
  nodes : List (Nat × Option Scalar) := []

/-- A scalar, or the number of one. -/
abbrev Reference := Scalar ⊕ Nat

namespace Anchors

/-- Give a name to a node. -/
def name (a : Anchors) (anchor : Option String) (node : Option Scalar) : Anchors :=
  match anchor with
  | none => a
  | some anchor =>
    let number := a.numbers.length
    { numbers := (anchor, number) :: a.numbers.filter (·.1 ≠ anchor)
      nodes := (number, node) :: a.nodes }

/-- What a node refers to, and the names after it. -/
def enter? (a : Anchors) : Node → Option (Reference × Anchors)
  | .scalar anchor s => some (.inl s, a.name anchor s)
  | .alias_ anchor => (a.numbers.lookup anchor).map fun number => (.inr number, a)

/-- What the nodes of a mapping refer to, and the names after it. -/
def enterAll? (a : Anchors) : Pairs → Option (List (Reference × Reference) × Anchors)
  | [] => some ([], a)
  | (key, value) :: pairs => do
    let (key, a) ← a.enter? key
    let (value, a) ← a.enter? value
    let (more, a) ← a.enterAll? pairs
    return ((key, value) :: more, a)

/-- The scalar that is meant. -/
def find? (a : Anchors) : Reference → Option Scalar
  | .inl s => some s
  | .inr number => (a.nodes.lookup number).join

end Anchors

/-- The entries of a mapping with the given name. -/
def Pairs.entries? (anchor : Option String) (pairs : Pairs) : Option Entries := do
  let (references, a) ← (({} : Anchors).name anchor none).enterAll? pairs
  references.mapM fun r => do return (← a.find? r.1, ← a.find? r.2)

/-- The entries of what a document holds. -/
def Content.entries? : Content → Option Entries
  | .nothing => some []
  | .scalar s => if s.isAbsent then some [] else none
  | .mapping anchor pairs => pairs.entries? anchor

/-- The entries of a text that is a mapping of scalars, or empty. -/
def mapping? (text : String) : Option Entries := do
  let content ← Content.ofTokens? (← Token.ofText? text)
  content.entries?

end Yaml

end NestedTxn
