import NestedTxn.Text.Numeral
import NestedTxn.Text.Utf8
import NestedTxn.Yaml.Glyph

/-!
# Tags

A tag is a sequence of bytes. It is written in full, or as a handle and the rest; what a handle
stands for is said in front of the document.

* `Tag`: a tag as it is written. `Tag.read?` reads one.
* `Tag.Handles`: what the handles stand for. `Tag.resolve?`: the tag that is meant.
* `Tag.handle?`, `Tag.uri?`: the parts. In the rest of a tag any byte may be written as a percent
  sign and two digits.
-/

namespace NestedTxn

namespace Yaml

/-- Whether a character may stand in a name. -/
def isNameChar (c : Char) : Bool := c.isAlphanum || c = '_' || c = '-'

/-- The name at the front, and what follows. -/
def takeName (gs : List Glyph) : List Char × List Glyph :=
  ((gs.takeWhile (isNameChar ·.char)).map Glyph.char, gs.dropWhile (isNameChar ·.char))

/-- A tag as it is written. -/
structure Tag where
  /-- Its handle; a tag that is written in full has none. -/
  handle : Option String
  /-- The rest. -/
  suffix : Bytes
deriving DecidableEq

namespace Tag

/-- The tag that says nothing. -/
def neutral : Bytes := Utf8.encode "!"

/-- The handle at the front, with an exclamation mark at its end if there is one. -/
def handle? (gs : List Glyph) : Option (String × List Glyph) :=
  if Glyph.peek gs = '!' then
    let (name, rest) := takeName (gs.drop 1)
    if Glyph.peek rest = '!' then some (.ofList ('!' :: name ++ ['!']), rest.drop 1)
    else some (.ofList ('!' :: name), rest)
  else none

/-- Whether a handle has an exclamation mark at its end, besides the one at its start. -/
def isClosed (handle : String) : Bool :=
  1 < handle.length && handle.toList.getLast? = some '!'

/-- Whether a character may stand in a tag, within a wide one also what structures braces. -/
def isUriChar (wide : Bool) (c : Char) : Bool :=
  isNameChar c || c ∈ [';', '/', '?', ':', '@', '&', '=', '+', '$', '.', '!', '~', '*', '\'',
    '(', ')'] || (wide && c ∈ [',', '[', ']'])

/-- The number of bytes that follow the first byte of a character. -/
def following? (b : UInt8) : Option Nat :=
  if b < 0x80 then some 0
  else if b < 0xC0 then none
  else if b < 0xE0 then some 1
  else if b < 0xF0 then some 2
  else if b < 0xF8 then some 3
  else none

/-- The byte that two digits spell. -/
def byte? (a b : Glyph) : Option UInt8 :=
  (Numeral.ofDigits? 16 [a.char, b.char]).map UInt8.ofNat

/-- The bytes of a tag behind `done`, which is reversed, and what follows. The next `open_` bytes
belong to a character that is begun. -/
def uriFrom? (wide : Bool) (open_ : Nat) (done : Bytes) : List Glyph → Option (Bytes × List Glyph)
  | [] => if open_ = 0 then some (done.reverse, []) else none
  | ⟨'%', _⟩ :: a :: b :: rest =>
    match byte? a b with
    | none => none
    | some byte =>
      match open_ with
      | 0 =>
        match following? byte with
        | some n => uriFrom? wide n (byte :: done) rest
        | none => none
      | n + 1 =>
        if 0x80 ≤ byte && byte < 0xC0 then uriFrom? wide n (byte :: done) rest else none
  | g :: rest =>
    if open_ ≠ 0 || g.char = '%' then none
    else if isUriChar wide g.char then
      uriFrom? wide 0 (UInt8.ofNat g.char.toNat :: done) rest
    else some (done.reverse, g :: rest)

/-- The bytes of a part of a tag. A byte zero ends them. -/
def uri? (wide : Bool) (gs : List Glyph) : Option (Bytes × List Glyph) :=
  (uriFrom? wide 0 [] gs).map fun r => (r.1.takeWhile (· ≠ 0), r.2)

/-- The bytes of a part of a tag that is not empty. -/
def someUri? (wide : Bool) (gs : List Glyph) : Option (Bytes × List Glyph) :=
  if isUriChar wide (Glyph.peek gs) || Glyph.peek gs = '%' then uri? wide gs else none

/-- A tag at an exclamation mark, and what follows. -/
def parts? (gs : List Glyph) : Option (Tag × List Glyph) :=
  if Glyph.peek (gs.drop 1) = '<' then do
    let (suffix, rest) ← someUri? true (gs.drop 2)
    if Glyph.peek rest = '>' then return (⟨none, suffix⟩, rest.drop 1) else none
  else do
    let (handle, rest) ← handle? gs
    if isClosed handle then
      let (suffix, rest) ← someUri? false rest
      return (⟨some handle, suffix⟩, rest)
    else
      -- No handle at all: what was read is the start of the rest.
      let (more, rest) ← uri? false rest
      let suffix := Utf8.encode (String.ofList (handle.toList.drop 1)) ++ more
      return (if suffix = [] then ⟨none, neutral⟩ else ⟨some "!", suffix⟩, rest)

/-- Read a tag at an exclamation mark. A blank follows it, or a comma in braces. -/
def read? (flow : Bool) (gs : List Glyph) : Option (Tag × List Glyph) :=
  (parts? gs).filter fun r =>
    endsWord (Glyph.peek r.2) || (flow && Glyph.peek r.2 = ',')

/-- What the handles stand for. -/
abbrev Handles := List (String × Bytes)

/-- What the handles stand for that a document says nothing about. -/
def Handles.standard : Handles :=
  [("!", neutral), ("!!", Utf8.encode "tag:yaml.org,2002:")]

/-- The tag that is meant, if its handle is known. -/
def resolve? (handles : Handles) (t : Tag) : Option Bytes :=
  match t.handle with
  | none => some t.suffix
  | some handle => (handles.lookup handle).map (· ++ t.suffix)

end Tag

end Yaml

end NestedTxn
