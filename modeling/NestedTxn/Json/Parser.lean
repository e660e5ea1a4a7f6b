import NestedTxn.Json.Basic
import NestedTxn.Text.Numeral

/-!
# Reading JSON

* `Json.parse?`: the value that a text spells. Blanks may stand around tokens; nothing else may
  follow the value.
* `Json.value?`: reads a value off the front of a text, and gives what follows it. Each level of
  nesting takes one of the `depth` that are left; the length of the text is always enough.
-/

namespace NestedTxn

namespace Json

/-- The blanks between tokens. -/
def isBlank (c : Char) : Bool := c = ' ' || c = '\n' || c = '\t' || c = '\r'

/-- The text after its leading blanks. -/
def skip (cs : List Char) : List Char := cs.dropWhile isBlank

/-- The text after `word`, if it starts with it. -/
def after? (word : List Char) (cs : List Char) : Option (List Char) :=
  if cs.take word.length = word then some (cs.drop word.length) else none

/-- A character of a text: itself, or half of one. -/
inductive Unit16 where
  | char (c : Char)
  | high (code : Nat)
  | low (code : Nat)

/-- The unit that a code stands for. -/
def Unit16.ofCode (n : Nat) : Unit16 :=
  if 0xD800 ≤ n ∧ n < 0xDC00 then .high n
  else if 0xDC00 ≤ n ∧ n < 0xE000 then .low n
  else .char (Char.ofNat n)

/-- The characters that units spell: two halves next to each other make one, and a half alone makes
none. -/
def characters? : List Unit16 → Option (List Char)
  | [] => some []
  | .char c :: us => (characters? us).map (c :: ·)
  | .high h :: .low l :: us =>
    (characters? us).map (Char.ofNat (0x10000 + (h - 0xD800) * 1024 + (l - 0xDC00)) :: ·)
  | _ => none

/-- The character that a single-letter escape stands for. -/
def escape? : Char → Option Char
  | '"' => some '"'
  | '\\' => some '\\'
  | '/' => some '/'
  | 'b' => some '\x08'
  | 'f' => some '\x0c'
  | 'n' => some '\n'
  | 'r' => some '\r'
  | 't' => some '\t'
  | _ => none

/-- The units of a text up to its closing quote, and what follows. -/
def units? : List Char → Option (List Unit16 × List Char)
  | [] => none
  | '"' :: rest => some ([], rest)
  | '\\' :: 'u' :: a :: b :: c :: d :: rest => do
    let code ← Numeral.ofDigits? 16 [a, b, c, d]
    let (us, rest) ← units? rest
    return (.ofCode code :: us, rest)
  | '\\' :: c :: rest => do
    let e ← escape? c
    let (us, rest) ← units? rest
    return (.char e :: us, rest)
  | c :: rest =>
    if c < ' ' then none
    else do
      let (us, rest) ← units? rest
      return (.char c :: us, rest)

/-- A text after its opening quote, and what follows. -/
def quoted? (cs : List Char) : Option (Option String × List Char) := do
  let (us, rest) ← units? cs
  return ((characters? us).map String.ofList, rest)

/-- Digits, one at least, and what follows. -/
def digits? (cs : List Char) : Option (List Char × List Char) :=
  let ds := cs.takeWhile Char.isDigit
  if ds = [] then none else some (ds, cs.dropWhile Char.isDigit)

/-- What follows the fraction, if there is one. -/
def fraction? : List Char → Option (Bool × List Char)
  | '.' :: cs => (digits? cs).map fun r => (true, r.2)
  | cs => some (false, cs)

/-- What follows the exponent, if there is one. -/
def exponent? : List Char → Option (Bool × List Char)
  | [] => some (false, [])
  | e :: cs =>
    if e = 'e' ∨ e = 'E' then
      let unsigned := match cs with
        | '+' :: cs => cs
        | '-' :: cs => cs
        | cs => cs
      (digits? unsigned).map fun r => (true, r.2)
    else some (false, e :: cs)

/-- A number, and what follows it. -/
def number? (cs : List Char) : Option (Json × List Char) := do
  let (negative, cs) := match cs with
    | '-' :: cs => (true, cs)
    | cs => (false, cs)
  let (ds, rest) ← digits? cs
  if ds.head? = some '0' ∧ ds.length ≠ 1 then none
  let (broken, rest) ← fraction? rest
  let (scaled, rest) ← exponent? rest
  let value := if negative || broken || scaled then none else Numeral.ofDigits? 10 ds
  return (.number value, rest)

mutual

/-- A value, and what follows it. -/
def value? : Nat → List Char → Option (Json × List Char)
  | 0, _ => none
  | depth + 1, cs =>
    match skip cs with
    | '"' :: rest => (quoted? rest).map fun r => (.text r.1, r.2)
    | '[' :: rest =>
      match skip rest with
      | ']' :: rest => some (.array [], rest)
      | _ => (items? depth rest).map fun r => (.array r.1, r.2)
    | '\x7b' :: rest =>
      match skip rest with
      | '\x7d' :: rest => some (.object [], rest)
      | _ => (members? depth rest).map fun r => (.object r.1, r.2)
    | rest =>
      match after? "null".toList rest, after? "true".toList rest, after? "false".toList rest with
      | some rest, _, _ => some (.null, rest)
      | _, some rest, _ => some (.bool true, rest)
      | _, _, some rest => some (.bool false, rest)
      | none, none, none => number? rest

/-- The items of an array up to its end, and what follows it. -/
def items? : Nat → List Char → Option (List Json × List Char)
  | 0, _ => none
  | depth + 1, cs => do
    let (item, rest) ← value? depth cs
    match skip rest with
    | ',' :: rest =>
      let (more, rest) ← items? depth rest
      return (item :: more, rest)
    | ']' :: rest => return ([item], rest)
    | _ => none

/-- The members of an object up to its end, and what follows it. -/
def members? : Nat → List Char → Option (List (Option String × Json) × List Char)
  | 0, _ => none
  | depth + 1, cs =>
    match skip cs with
    | '"' :: rest => do
      let (name, rest) ← quoted? rest
      match skip rest with
      | ':' :: rest =>
        let (content, rest) ← value? depth rest
        match skip rest with
        | ',' :: rest =>
          let (more, rest) ← members? depth rest
          return ((name, content) :: more, rest)
        | '\x7d' :: rest => return ([(name, content)], rest)
        | _ => none
      | _ => none
    | _ => none

end

/-- The value that a text spells. -/
def parse? (text : String) : Option Json :=
  let cs := text.toList
  match value? (2 * cs.length + 2) cs with
  | some (j, rest) => if skip rest = [] then some j else none
  | none => none

end Json

end NestedTxn
