import NestedTxn.Text.Numeral
import NestedTxn.Yaml.Scalar.Fold

/-!
# Scalars in quotes

* `Quoted.single?`: reads up to the closing single quote; two of them stand for one.
* `Quoted.double?`: reads up to the closing double quote; a backslash starts an escape, and joins
  lines at the end of one.
-/

namespace NestedTxn

namespace Yaml

namespace Quoted

/-- The character that an escape of one letter stands for. -/
def escape? : Char → Option Char
  | '0' => some '\x00'
  | 'a' => some '\x07'
  | 'b' => some '\x08'
  | 't' | '\t' => some '\t'
  | 'n' => some '\n'
  | 'v' => some '\x0b'
  | 'f' => some '\x0c'
  | 'r' => some '\r'
  | 'e' => some '\x1b'
  | ' ' => some ' '
  | '"' => some '"'
  | '/' => some '/'
  | '\\' => some '\\'
  | 'N' => some '\u0085'
  | '_' => some '\u00a0'
  | 'L' => some '\u2028'
  | 'P' => some '\u2029'
  | _ => none

/-- The character with the code that hexadecimal digits spell, if there is one. -/
def ofCode? (digits : List Glyph) : Option Char := do
  let n ← Numeral.ofDigits? 16 (digits.map Glyph.char)
  if h : n.isValidChar then some (Char.ofNatAux n h) else none

/-- Whether a scalar in quotes cannot go on here. -/
def breaksOff (gs : List Glyph) : Bool := Glyph.peek gs = stop || Glyph.isBoundary gs

/-- The text up to the closing single quote, behind `done`, which is reversed, and a gap. -/
def single? (done : List Char) (gap : Gap) : List Glyph → Option (String × List Glyph)
  | [] => none
  | ⟨'\'', _⟩ :: ⟨'\'', _⟩ :: rest => single? ('\'' :: gap.onto done) {} rest
  | ⟨'\'', _⟩ :: rest => some (.ofList (gap.onto done).reverse, rest)
  | g :: rest =>
    if isBlank g.char then single? done (gap.addBlank g.char) rest
    else if isBreak g.char then single? done (gap.addBreak g.char) rest
    else if breaksOff (g :: rest) then none
    else single? (g.char :: gap.onto done) {} rest

/-- The text up to the closing double quote, behind `done`, which is reversed, and a gap. -/
def double? (done : List Char) (gap : Gap) : List Glyph → Option (String × List Glyph)
  | [] => none
  | ⟨'"', _⟩ :: rest => some (.ofList (gap.onto done).reverse, rest)
  | ⟨'\\', _⟩ :: ⟨'x', _⟩ :: a :: b :: rest =>
    match ofCode? [a, b] with
    | some c => double? (c :: gap.onto done) {} rest
    | none => none
  | ⟨'\\', _⟩ :: ⟨'u', _⟩ :: a :: b :: c :: d :: rest =>
    match ofCode? [a, b, c, d] with
    | some c => double? (c :: gap.onto done) {} rest
    | none => none
  | ⟨'\\', _⟩ :: ⟨'U', _⟩ :: a :: b :: c :: d :: e :: f :: g :: h :: rest =>
    match ofCode? [a, b, c, d, e, f, g, h] with
    | some c => double? (c :: gap.onto done) {} rest
    | none => none
  | ⟨'\\', _⟩ :: e :: rest =>
    if isBreak e.char then double? (gap.onto done) { broken := true } rest
    else
      match escape? e.char with
      | some c => double? (c :: gap.onto done) {} rest
      | none => none
  | g :: rest =>
    if isBlank g.char then double? done (gap.addBlank g.char) rest
    else if isBreak g.char then double? done (gap.addBreak g.char) rest
    else if breaksOff (g :: rest) then none
    else double? (g.char :: gap.onto done) {} rest

end Quoted

end Yaml

end NestedTxn
