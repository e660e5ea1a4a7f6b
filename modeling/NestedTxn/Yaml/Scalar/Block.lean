import NestedTxn.Yaml.Glyph

/-!
# Scalars on lines of their own

* `Block.Header`: what stands behind the indicator. `Block.header?` reads it.
* `Block.emptyLines?`: the line ends up to the next line with text, and how far the lines are
  indented.
* `Block.read?`: reads a scalar behind its indicator. Its lines are indented as its header says,
  or as its first line is. The last line ends are dropped or kept as the header says.
-/

namespace NestedTxn

namespace Yaml

namespace Block

/-- What happens to the line ends behind the last line. -/
inductive Chomp where
  /-- All are dropped. -/
  | strip
  /-- One is kept. -/
  | clip
  /-- All are kept. -/
  | keep
deriving DecidableEq

/-- What stands behind the indicator of a scalar. -/
structure Header where
  /-- What happens to the last line ends. -/
  chomp : Chomp := .clip
  /-- How much further its lines are indented. -/
  increment : Option Nat := none
deriving DecidableEq

/-- The meaning of a sign in a header. -/
def chomp? : Char → Option Chomp
  | '-' => some .strip
  | '+' => some .keep
  | _ => none

/-- A sign at the front. -/
def sign? (gs : List Glyph) : Option Chomp × List Glyph :=
  match chomp? (Glyph.peek gs) with
  | some chomp => (some chomp, gs.drop 1)
  | none => (none, gs)

/-- A digit at the front, which cannot be zero. -/
def digit? (gs : List Glyph) : Option (Option Nat × List Glyph) :=
  let c := Glyph.peek gs
  if c = '0' then none
  else if c.isDigit then some (some (c.toNat - '0'.toNat), gs.drop 1)
  else some (none, gs)

/-- The header at the front, a sign and a digit in any order, and the next line. -/
def header? (gs : List Glyph) : Option (Header × List Glyph) := do
  let (before, gs) := sign? gs
  let (increment, gs) ← digit? gs
  let (after, gs) := if before = none && increment ≠ none then sign? gs else (none, gs)
  let gs ← Glyph.nextLine? gs
  return ({ chomp := (before.or after).getD .clip, increment }, gs)

/-- The ends of the lines without text at the front, behind those in `breaks`, which are reversed;
the greatest indentation of these lines and the next one; and what follows. Of the spaces before
column `indent`, all if there is none, nothing is left. -/
def emptyLines? (indent : Option Nat) (widest : Nat) (breaks : List Char) :
    List Glyph → Option (List Char × Nat × List Glyph)
  | [] => some (breaks.reverse, widest, [])
  | g :: rest =>
    let inside := indent.all (g.mark.column < ·)
    if inside && g.char = ' ' then emptyLines? indent widest breaks rest
    else if inside && g.char = '\t' then none
    else if isBreak g.char then
      emptyLines? indent (max widest g.mark.column) (g.char :: breaks) rest
    else some (breaks.reverse, max widest g.mark.column, g :: rest)

/-- What was read of a scalar. -/
structure Body where
  /-- The text of its lines, reversed, but for the last line ends. -/
  done : List Char := []
  /-- The end of the last line. -/
  last : Option Char := none
  /-- The ends of the empty lines after it. -/
  empty : List Char := []
  /-- Whether the last line starts with a blank. -/
  inset : Bool := false
deriving DecidableEq

namespace Body

/-- What is left of the line ends before the next line; `inset` tells whether that starts with a
blank. In a folded scalar the end of a line becomes a space between two lines that do not, and is
lost if empty lines follow. -/
def separator (fold : Bool) (b : Body) (inset : Bool) : List Char :=
  if fold && b.last = some '\n' && !b.inset && !inset then
    if b.empty = [] then [' '] else b.empty
  else b.last.toList ++ b.empty

/-- The whole text. -/
def text (b : Body) : Chomp → List Char
  | .strip => b.done.reverse
  | .clip => b.done.reverse ++ b.last.toList
  | .keep => b.done.reverse ++ b.last.toList ++ b.empty

end Body

/-- The lines indented by `indent`, and what follows. Each takes one of the `count` that are
left. -/
def lines? (fold : Bool) (indent : Nat) (b : Body) :
    (count : Nat) → List Glyph → Option (Body × List Glyph)
  | 0, gs => some (b, gs)
  | count + 1, gs =>
    if (Glyph.here gs).column ≠ indent || Glyph.peek gs = stop then some (b, gs)
    else
      let inset := isBlank (Glyph.peek gs)
      let line := (gs.takeWhile (!endsLine ·.char)).map Glyph.char
      let rest := gs.dropWhile (!endsLine ·.char)
      let (last, rest) :=
        if isBreak (Glyph.peek rest) then (some (Glyph.peek rest), rest.drop 1) else (none, rest)
      match emptyLines? (some indent) 0 [] rest with
      | none => none
      | some (empty, _, rest) =>
        let done := line.reverse ++ (b.separator fold inset).reverse ++ b.done
        lines? fold indent { done, last, empty, inset } count rest

/-- Read a scalar behind its indicator, in a mapping indented by `outer`. -/
def read? (fold : Bool) (outer : Option Nat) (gs : List Glyph) :
    Option (String × List Glyph) := do
  let (header, gs) ← header? gs
  let given := header.increment.map (outer.getD 0 + ·)
  let (empty, widest, gs) ← emptyLines? given 0 [] gs
  let indent := given.getD (max widest (max (outer.elim 0 (· + 1)) 1))
  let (body, gs) ← lines? fold indent { empty } gs.length gs
  return (.ofList (body.text header.chomp), gs)

end Block

end Yaml

end NestedTxn
