import NestedTxn.Yaml.Scalar.Block
import NestedTxn.Yaml.Scalar.Plain
import NestedTxn.Yaml.Scalar.Quoted
import NestedTxn.Yaml.Token

/-!
# Reading tokens

Whether something is a key shows only at the colon behind it, so a place where a key may have
started is remembered until the line ends.

* `Lexer`: the tokens read so far, and what has to be known about them to read on.
* `Lexer.settle?`: what is due before the next token. `Lexer.take?`: the next token.
* `Token.ofText?`: the tokens of a text. Lists and nested mappings are refused.
-/

namespace NestedTxn

namespace Yaml

/-- A place where a key may have started. -/
structure KeyStart where
  /-- Where it is. -/
  mark : Mark
  /-- Whether there can be nothing but a key. -/
  required : Bool
  /-- The number of tokens before it. -/
  earlier : Nat
deriving DecidableEq

/-- A text that is read up to some place. -/
structure Lexer where
  /-- What follows. -/
  rest : List Glyph
  /-- Whether it stands between braces. -/
  flow : Bool := false
  /-- The indentation of the mapping of lines that is open. -/
  indent : Option Nat := none
  /-- Whether a key may start here. -/
  keyAllowed : Bool := true
  /-- Where the last key may have started. -/
  keyStart : Option KeyStart := none
  /-- The tokens, newest first. -/
  tokens : List Token := []
deriving DecidableEq

namespace Lexer

/-- The most characters between the start of a key and its colon. -/
def longestKey : Nat := 1024

/-- Where the text goes on. -/
def here (l : Lexer) : Mark := Glyph.here l.rest

/-- The text with one more token. -/
def push (l : Lexer) (t : Token) (rest : List Glyph) : Lexer :=
  { l with tokens := t :: l.tokens, rest }

/-- There is no key where one may have started. -/
def forgetKey? (l : Lexer) : Option Lexer :=
  if l.keyStart.any (·.required) then none else some { l with keyStart := none }

/-- A key may start here, if one may. -/
def rememberKey? (l : Lexer) : Option Lexer :=
  if l.keyAllowed then do
    let l ← l.forgetKey?
    let required := !l.flow && l.indent = some l.here.column
    return { l with keyStart := some ⟨l.here, required, l.tokens.length⟩ }
  else some l

/-- The end of the mapping of lines, if lines are less indented now. -/
def closeBlock (l : Lexer) : Lexer := { l.push .blockEnd l.rest with indent := none }

/-- The end of the mapping of lines, if there is one. -/
def closeAll (l : Lexer) : Lexer := if l.indent.isSome then l.closeBlock else l

/-- The tokens in front of an entry at a column: the start of a mapping, if it is the first one.
There is none within another. -/
def openBlock? (l : Lexer) (column : Nat) : Option (Lexer × List Token) :=
  if l.flow then some (l, [])
  else
    match l.indent with
    | none => some ({ l with indent := some column }, [.blockStart])
    | some indent => if indent < column then none else some (l, [])

/-! ## Between tokens -/

/-- What follows blanks, line ends and comments, and whether a key may start there. Tabs are no
blanks where a key may start; `comment` tells whether this is inside a comment. -/
def skip (flow keyAllowed comment : Bool) : List Glyph → Bool × List Glyph
  | [] => (keyAllowed, [])
  | g :: rest =>
    if isBreak g.char then skip flow (keyAllowed || !flow) false rest
    else if g.char = stop then (keyAllowed, g :: rest)
    else if comment || g.char = ' ' || (g.char = byteOrderMark && g.mark.column = 0) ||
        (g.char = '\t' && (flow || !keyAllowed)) then skip flow keyAllowed comment rest
    else if g.char = '#' then skip flow keyAllowed true rest
    else (keyAllowed, g :: rest)

/-- Forget a key that may have started on an earlier line, or too far away. -/
def expireKey? (l : Lexer) : Option Lexer :=
  match l.keyStart with
  | none => some l
  | some k =>
    if k.mark.line < l.here.line || k.mark.index + longestKey < l.here.index then l.forgetKey?
    else some l

/-- What is due before the next token. -/
def settle? (l : Lexer) : Option Lexer := do
  let (keyAllowed, rest) := skip l.flow l.keyAllowed false l.rest
  let l ← { l with keyAllowed, rest }.expireKey?
  if !l.flow && l.indent.any (l.here.column < ·) then return l.closeBlock else return l

/-! ## Tokens -/

/-- A token that stands at the end of a block: a directive or a boundary of documents. -/
def pushOutside? (l : Lexer) (t : Token) (rest : List Glyph) : Option Lexer := do
  let l ← l.closeAll.forgetKey?
  return { l.push t rest with keyAllowed := false }

/-- A token that may start a key; none may start directly behind it. -/
def pushNode? (l : Lexer) (t : Token) (rest : List Glyph) : Option Lexer := do
  let l ← l.rememberKey?
  return { l.push t rest with keyAllowed := false }

/-- The opening brace. -/
def openFlow? (l : Lexer) (rest : List Glyph) : Option Lexer :=
  if l.flow || l.indent.isSome then none
  else some { l.push .flowStart rest with flow := true, keyAllowed := true, keyStart := none }

/-- The closing brace. -/
def closeFlow? (l : Lexer) (rest : List Glyph) : Option Lexer := do
  if !l.flow then none
  let l ← l.forgetKey?
  return { l.push .flowEnd rest with flow := false, keyAllowed := false }

/-- The comma between entries. -/
def nextFlow? (l : Lexer) (rest : List Glyph) : Option Lexer := do
  if !l.flow then none
  let l ← l.forgetKey?
  return { l.push .flowNext rest with keyAllowed := true }

/-- The question mark in front of a key. -/
def pushKey? (l : Lexer) (rest : List Glyph) : Option Lexer := do
  if !l.flow && !l.keyAllowed then none
  let (l, front) ← l.openBlock? l.here.column
  let l ← l.forgetKey?
  let l := { l with tokens := front ++ l.tokens }
  return { l.push .key rest with keyAllowed := !l.flow }

/-- The colon in front of a value, behind a key. -/
def pushValueOf? (l : Lexer) (k : KeyStart) (rest : List Glyph) : Option Lexer := do
  let (l, front) ← l.openBlock? k.mark.column
  let inner := l.tokens.length - k.earlier
  let tokens := l.tokens.take inner ++ .key :: front ++ l.tokens.drop inner
  return { { l with tokens }.push .value rest with keyStart := none, keyAllowed := false }

/-- The colon in front of a value. -/
def pushValue? (l : Lexer) (rest : List Glyph) : Option Lexer :=
  match l.keyStart with
  | some k => l.pushValueOf? k rest
  | none => do
    if !l.flow && !l.keyAllowed then none
    let (l, front) ← l.openBlock? l.here.column
    let l := { l with tokens := front ++ l.tokens }
    return { l.push .value rest with keyAllowed := !l.flow }

/-- An anchor or an alias behind its indicator. -/
def pushName? (l : Lexer) (token : String → Token) (rest : List Glyph) : Option Lexer := do
  let (name, rest) := takeName rest
  let after := Glyph.peek rest
  if name = [] then none
  if !(endsWord after || after ∈ ['?', ':', ',', ']', '\x7d', '%', '@', '\x60']) then none
  l.pushNode? (token (.ofList name)) rest

/-- A tag. -/
def pushTag? (l : Lexer) : Option Lexer := do
  let (t, rest) ← Tag.read? l.flow l.rest
  l.pushNode? (.tag t) rest

/-- A scalar in quotes behind the first one. -/
def pushQuoted? (l : Lexer) (r : Option (String × List Glyph)) : Option Lexer := do
  let (text, rest) ← r
  l.pushNode? (.scalar { style := .quoted, text }) rest

/-- A plain scalar. -/
def pushPlain? (l : Lexer) : Option Lexer := do
  let (text, broken, rest) ← Plain.read? l.flow (l.indent.elim 0 (· + 1)) l.rest
  let l ← l.pushNode? (.scalar { text }) rest
  return { l with keyAllowed := broken }

/-- A scalar on lines of its own behind its indicator. -/
def pushBlock? (l : Lexer) (fold : Bool) (rest : List Glyph) : Option Lexer := do
  if l.flow then none
  let l ← l.forgetKey?
  let (text, rest) ← Block.read? fold l.indent rest
  let style := if fold then .folded else .literal
  return { l.push (.scalar { style, text }) rest with keyAllowed := true }

/-- The next token, which starts with `g`. -/
def takeAt? (l : Lexer) (g : Glyph) (rest : List Glyph) : Option Lexer :=
  let after := Glyph.peek rest
  if g.char = '%' && g.mark.column = 0 then do
    let (d, rest) ← Directive.read? rest
    l.pushOutside? (.directive d) rest
  else if Glyph.isTriple '-' l.rest then l.pushOutside? .documentStart (l.rest.drop 3)
  else if Glyph.isTriple '.' l.rest then l.pushOutside? .documentEnd (l.rest.drop 3)
  else if (g.char = '?' || g.char = ':') && (l.flow || endsWord after) then
    if g.char = '?' then l.pushKey? rest else l.pushValue? rest
  else if Plain.starts l.flow g.char after then l.pushPlain?
  else
    match g.char with
    | '\x7b' => l.openFlow? rest
    | '\x7d' => l.closeFlow? rest
    | ',' => l.nextFlow? rest
    | '&' => l.pushName? .anchor rest
    | '*' => l.pushName? .alias_ rest
    | '!' => l.pushTag?
    | '\'' => l.pushQuoted? (Quoted.single? [] {} rest)
    | '"' => l.pushQuoted? (Quoted.double? [] {} rest)
    | '|' => l.pushBlock? false rest
    | '>' => l.pushBlock? true rest
    | _ => none

/-- The next token. -/
def take? (l : Lexer) : Option Lexer :=
  match l.rest with
  | [] => none
  | g :: rest => l.takeAt? g rest

/-- The tokens up to the end of the text. Each takes one of the `count` characters that are
left. -/
def run? : (count : Nat) → Lexer → Option (List Token)
  | 0, _ => none
  | count + 1, l =>
    match l.settle? with
    | none => none
    | some l =>
      if Glyph.peek l.rest = stop then l.closeAll.forgetKey?.map (·.tokens.reverse)
      else
        match l.take? with
        | none => none
        | some l => run? count l

end Lexer

/-- The tokens of a text. -/
def Token.ofText? (text : String) : Option (List Token) := do
  let gs ← Glyph.ofText? text
  Lexer.run? (gs.length + 1) { rest := gs }

end Yaml

end NestedTxn
