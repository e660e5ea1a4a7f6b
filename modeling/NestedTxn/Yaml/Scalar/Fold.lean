import NestedTxn.Yaml.Glyph

/-!
# Gaps between words

A scalar may go on over several lines. `Gap` is what stands between two of its words, and
`Gap.text` what is left of it: blanks stay, one line end becomes a space, and of several line ends
the first is lost. Blanks around line ends are lost.
-/

namespace NestedTxn

namespace Yaml

/-- What stands between two words. -/
structure Gap where
  /-- Whether the line ends in it. -/
  broken : Bool := false
  /-- The blanks, newest first, if it does not. -/
  blanks : List Char := []
  /-- The first line end, unless that is escaped. -/
  first : Option Char := none
  /-- The line ends after it, newest first. -/
  more : List Char := []
deriving DecidableEq

namespace Gap

/-- The gap with a blank added. -/
def addBlank (g : Gap) (c : Char) : Gap :=
  if g.broken then g else { g with blanks := c :: g.blanks }

/-- The gap with a line end added. -/
def addBreak (g : Gap) (c : Char) : Gap :=
  if g.broken then { g with more := c :: g.more } else { broken := true, first := some c }

/-- Whether there is no gap. -/
def isEmpty (g : Gap) : Bool := !g.broken && g.blanks = []

/-- What is left of a gap. -/
def text (g : Gap) : List Char :=
  if g.broken then
    match g.first with
    | some '\n' => if g.more = [] then [' '] else g.more.reverse
    | some c => c :: g.more.reverse
    | none => g.more.reverse
  else g.blanks.reverse

/-- What is left of a gap behind `done`, which is reversed. -/
def onto (g : Gap) (done : List Char) : List Char := g.text.reverse ++ done

end Gap

end Yaml

end NestedTxn
