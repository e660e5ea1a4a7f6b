import NestedTxn.Yaml.Token

/-!
# Documents

* `Node`: a scalar, which may have a name, or a reference to a named one.
* `Content`: what a document holds: nothing, one scalar, or one mapping of such nodes.
* `Content.ofTokens?`: the content of the only document that tokens make up.
-/

namespace NestedTxn

namespace Yaml

/-- A scalar of a document, or a reference to one. -/
inductive Node where
  /-- A scalar with its name. -/
  | scalar (anchor : Option String) (s : Scalar)
  /-- The node with a name. -/
  | alias_ (name : String)
deriving DecidableEq

/-- The node of a key or a value that is left out. -/
def Node.absent : Node := .scalar none {}

/-- The keys of a mapping with their values. -/
abbrev Pairs := List (Node × Node)

/-- What a document holds. -/
inductive Content where
  | nothing
  | scalar (s : Scalar)
  /-- A mapping with its name. -/
  | mapping (anchor : Option String) (pairs : Pairs)
deriving DecidableEq

/-- What stands in front of a node. -/
structure Properties where
  /-- The name of the node. -/
  anchor : Option String := none
  /-- Its tag. -/
  tag : Option Bytes := none
deriving DecidableEq

variable (handles : Tag.Handles)

/-- What stands in front of a node: at most one name and one tag, in any order. -/
def Properties.ofTokens? : List Token → Option (Properties × List Token)
  | .anchor name :: .tag t :: ts | .tag t :: .anchor name :: ts =>
    (t.resolve? handles).map fun tag => (⟨some name, some tag⟩, ts)
  | .tag t :: ts => (t.resolve? handles).map fun tag => (⟨none, some tag⟩, ts)
  | .anchor name :: ts => some (⟨some name, none⟩, ts)
  | ts => some ({}, ts)

/-- A scalar with what stands in front of it. The neutral tag is lost. -/
def Properties.apply (p : Properties) (s : Scalar) : Scalar :=
  { s with tag := p.tag.filter (· ≠ Tag.neutral) }

/-- The node at the front. -/
def Node.ofTokens? (ts : List Token) : Option (Node × List Token) :=
  match ts with
  | .alias_ name :: ts => some (.alias_ name, ts)
  | _ => do
    let (p, ts) ← Properties.ofTokens? handles ts
    match ts with
    | .scalar s :: ts => return (.scalar p.anchor (p.apply s), ts)
    | _ => if p = {} then none else return (.scalar p.anchor { tag := p.tag }, ts)

/-- The node at the front, or none before the given tokens. -/
def Node.ofTokensBefore? (before : List Token) (ts : List Token) : Option (Node × List Token) :=
  if ts.head?.any (· ∈ before) then some (.absent, ts) else ofTokens? handles ts

/-- The value at the front, if there is one. -/
def Node.valueBefore? (before : List Token) (ts : List Token) : Option (Node × List Token) :=
  match ts with
  | .value :: ts => ofTokensBefore? handles before ts
  | _ => some (.absent, ts)

/-- The entries up to the end of a mapping of lines. Each takes one of the `count` tokens that are
left. -/
def Pairs.ofBlock? : (count : Nat) → List Token → Option (Pairs × List Token)
  | 0, _ => none
  | count + 1, ts =>
    match ts with
    | .blockEnd :: ts => some ([], ts)
    | .key :: ts => do
      let before := [.key, .value, .blockEnd]
      let (key, ts) ← Node.ofTokensBefore? handles before ts
      let (value, ts) ← Node.valueBefore? handles before ts
      let (pairs, ts) ← ofBlock? count ts
      return ((key, value) :: pairs, ts)
    | _ => none

/-- The entry in braces at the front. A lone key has no value. -/
def Pairs.entry? (ts : List Token) : Option ((Node × Node) × List Token) :=
  match ts with
  | .key :: ts => do
    let (key, ts) ← Node.ofTokensBefore? handles [.value, .flowNext, .flowEnd] ts
    let (value, ts) ← Node.valueBefore? handles [.flowNext, .flowEnd] ts
    return ((key, value), ts)
  | ts => (Node.ofTokens? handles ts).map fun r => ((r.1, .absent), r.2)

/-- The entries up to the end of a mapping in braces; a comma may follow the last one. Each takes
one of the `count` tokens that are left. -/
def Pairs.ofFlow? : (count : Nat) → List Token → Option (Pairs × List Token)
  | 0, _ => none
  | count + 1, ts =>
    match ts with
    | .flowEnd :: ts => some ([], ts)
    | ts => do
      let (entry, ts) ← entry? handles ts
      match ts with
      | .flowEnd :: ts => return ([entry], ts)
      | .flowNext :: ts =>
        let (pairs, ts) ← ofFlow? count ts
        return (entry :: pairs, ts)
      | _ => none

/-- The content of a document at the front. -/
def Content.root? (ts : List Token) : Option (Content × List Token) := do
  let (p, after) ← Properties.ofTokens? handles ts
  match after with
  | .blockStart :: ts =>
    (Pairs.ofBlock? handles ts.length ts).map fun r => (.mapping p.anchor r.1, r.2)
  | .flowStart :: ts =>
    (Pairs.ofFlow? handles ts.length ts).map fun r => (.mapping p.anchor r.1, r.2)
  | _ =>
    match ← Node.ofTokens? handles ts with
    | (.scalar _ s, ts) => return (.scalar s, ts)
    | (.alias_ _, _) => none

omit handles

/-- What the handles stand for by the directives of a document. They speak of a known version, of
that and of each handle once. -/
def Directive.handles? (ds : List Directive) : Option Tag.Handles :=
  let versions := ds.filterMap fun d => match d with
    | .version major minor => some (major, minor)
    | .tag .. => none
  let tags := ds.filterMap fun d => match d with
    | .tag handle start => some (handle, start)
    | .version .. => none
  if versions.length ≤ 1 && versions.all (· ∈ [(1, 1), (1, 2)]) && (tags.map (·.1)).Nodup then
    some (tags ++ .standard)
  else none

/-- The directives at the front, and what follows. -/
def Directive.take : List Token → List Directive × List Token
  | .directive d :: ts => (d :: (take ts).1, (take ts).2)
  | ts => ([], ts)

/-- The content of the only document that tokens make up. Without a start it has no directives,
and is not empty. -/
def Content.ofTokens? (ts : List Token) : Option Content := do
  if ts = [] then return .nothing
  let (directives, ts) := Directive.take ts
  let handles ← Directive.handles? directives
  let (content, ts) ←
    match ts with
    | .documentStart :: ts =>
      if ts.head?.all (· = .documentEnd) then some (.nothing, ts) else root? handles ts
    | ts => if directives = [] then root? handles ts else none
  if ts.all (· = .documentEnd) then return content else none

end Yaml

end NestedTxn
