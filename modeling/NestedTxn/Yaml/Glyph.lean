/-!
# Characters in their places

YAML looks at where characters stand: a key may span one line only, and indentation is structure.

* `Mark`: a place in a text. `Glyph`: a character and the place where it stands.
* `Glyph.ofText`: the glyphs of a text. Every way to end a line that is no separator of its own
  becomes a line feed. The last glyph is `stop`, which stands for the end of the text.
* `endsLine`, `endsWord`: the characters that end a line, and a word in it.
-/

namespace NestedTxn

namespace Yaml

/-- A place in a text. -/
structure Mark where
  /-- The number of characters before it. -/
  index : Nat := 0
  /-- The number of lines before it. -/
  line : Nat := 0
  /-- The number of characters before it on its line. -/
  column : Nat := 0
deriving DecidableEq

/-- The place behind a character. -/
def Mark.next (m : Mark) : Mark := { m with index := m.index + 1, column := m.column + 1 }

/-- The start of the next line, behind a line end of `width` characters. -/
def Mark.nextLine (m : Mark) (width : Nat) : Mark := ⟨m.index + width, m.line + 1, 0⟩

/-- The character that stands for the end of a text, which cannot stand in it. -/
def stop : Char := '\x00'

/-- The mark of the order of bytes, which says nothing at the start of a line. -/
def byteOrderMark : Char := '\ufeff'

/-- Whether a character separates tokens on a line. -/
def isBlank (c : Char) : Bool := c = ' ' || c = '\t'

/-- Whether a character ends a line. -/
def isBreak (c : Char) : Bool :=
  c = '\n' || c = '\r' || c = '\u0085' || c = '\u2028' || c = '\u2029'

/-- Whether a line ends before a character. -/
def endsLine (c : Char) : Bool := isBreak c || c = stop

/-- Whether a word ends before a character. -/
def endsWord (c : Char) : Bool := isBlank c || endsLine c

/-- Whether a character may stand in a text. -/
def isAllowed (c : Char) : Bool :=
  c = '\t' || c = '\n' || c = '\r' || (' ' ≤ c && c ≤ '~') || c = '\u0085' ||
    ('\u00a0' ≤ c && c ≠ '\ufffe' && c ≠ '\uffff')

/-- A character and the place where it stands. -/
structure Glyph where
  /-- The character. -/
  char : Char
  /-- Its place. -/
  mark : Mark
deriving DecidableEq

namespace Glyph

/-- The glyphs of the characters from the mark on, behind those in `done`, which are reversed. -/
def locate (done : List Glyph) (m : Mark) : List Char → List Glyph
  | [] => (⟨stop, m⟩ :: done).reverse
  | '\r' :: '\n' :: cs => locate (⟨'\n', m⟩ :: done) (m.nextLine 2) cs
  | c :: cs =>
    if c = '\n' || c = '\r' || c = '\u0085' then locate (⟨'\n', m⟩ :: done) (m.nextLine 1) cs
    else if isBreak c then locate (⟨c, m⟩ :: done) (m.nextLine 1) cs
    else locate (⟨c, m⟩ :: done) m.next cs

/-- The glyphs of a text, unless it holds a character that no text may hold. -/
def ofText? (text : String) : Option (List Glyph) :=
  if text.toList.all isAllowed then some (locate [] {} text.toList) else none

/-- The character of the first glyph. -/
def peek : List Glyph → Char
  | [] => stop
  | g :: _ => g.char

/-- The place of the first glyph. -/
def here : List Glyph → Mark
  | [] => {}
  | g :: _ => g.mark

/-- Whether three characters `c` stand at the start of a line, and nothing beside them. -/
def isTriple (c : Char) : List Glyph → Bool
  | a :: b :: d :: rest =>
    a.mark.column = 0 && a.char = c && b.char = c && d.char = c && endsWord (peek rest)
  | _ => false

/-- Whether a document starts or ends here. -/
def isBoundary (gs : List Glyph) : Bool := isTriple '-' gs || isTriple '.' gs

/-- What follows blanks. -/
def skipBlanks (gs : List Glyph) : List Glyph := gs.dropWhile (isBlank ·.char)

/-- The next line, if there is nothing but blanks and a comment on the rest of this one. -/
def nextLine? (gs : List Glyph) : Option (List Glyph) :=
  let gs := skipBlanks gs
  match if peek gs = '#' then gs.dropWhile (!endsLine ·.char) else gs with
  | [] => some []
  | g :: rest =>
    if isBreak g.char then some rest else if g.char = stop then some (g :: rest) else none

end Glyph

end Yaml

end NestedTxn
