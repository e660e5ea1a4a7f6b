import NestedTxn.Yaml.Scalar.Fold

/-!
# Plain scalars

* `Plain.starts`: whether a plain scalar starts with a character.
* `Plain.read?`: reads a plain scalar. It ends before a comment, before a colon that ends a word,
  before a boundary of documents, and before a line that is not indented enough; in braces before
  the characters that structure them. The gap at its end is read, but does not belong to it.
-/

namespace NestedTxn

namespace Yaml

namespace Plain

/-- The characters that structure what is in braces. -/
def isFlowMark (c : Char) : Bool := c ∈ [',', '[', ']', '\x7b', '\x7d']

/-- The characters that cannot start a plain scalar. -/
def isIndicator (c : Char) : Bool :=
  isFlowMark c || c ∈ ['#', '&', '*', '!', '|', '>', '\'', '"', '%', '@', '\x60']

/-- Whether a plain scalar starts with `c`, before the character `after`. -/
def starts (flow : Bool) (c after : Char) : Bool :=
  if c = '-' then !endsWord after
  else if c = '?' || c = ':' then !flow && !endsWord after
  else !isIndicator c && !endsWord c

/-- The rest of a plain scalar behind `done`, which is reversed, and the gap; whether the scalar
ends in a gap with a line end; and what follows. Lines have to be indented by `indent`. -/
def readFrom? (flow : Bool) (indent : Nat) (done : List Char) (gap : Gap) :
    List Glyph → Option (String × Bool × List Glyph)
  | [] => some (.ofList done.reverse, gap.broken, [])
  | g :: rest =>
    if isBlank g.char then
      if gap.broken && g.char = '\t' && g.mark.column < indent then none
      else readFrom? flow indent done (gap.addBlank g.char) rest
    else if isBreak g.char then readFrom? flow indent done (gap.addBreak g.char) rest
    else if g.char = stop || (!gap.isEmpty && ((!flow && g.mark.column < indent) ||
        g.char = '#' || Glyph.isBoundary (g :: rest))) then
      some (.ofList done.reverse, gap.broken, g :: rest)
    else if flow && g.char = ':' && (isFlowMark (Glyph.peek rest) || Glyph.peek rest = '?') then
      none
    else if (g.char = ':' && endsWord (Glyph.peek rest)) || (flow && isFlowMark g.char) then
      some (.ofList done.reverse, gap.broken, g :: rest)
    else readFrom? flow indent (g.char :: gap.onto done) {} rest

/-- Read a plain scalar. -/
def read? (flow : Bool) (indent : Nat) (gs : List Glyph) : Option (String × Bool × List Glyph) :=
  readFrom? flow indent [] {} gs

end Plain

end Yaml

end NestedTxn
