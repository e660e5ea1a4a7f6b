import NestedTxn.Text.Numeral
import NestedTxn.Text.Utf8

/-!
# Scalars in YAML

* `Yaml.Scalar`: a text with the style it is written in and its tag.
* `Yaml.Scalar.truth?`, `Yaml.Scalar.word?`: the truth value or the number that a scalar stands
  for. It has to be plain, or literal with the tag of that kind.
* `Yaml.Scalar.choice?`: the name that a scalar chooses, which is its text, or a tag of its own.
-/

namespace NestedTxn

namespace Yaml

/-- How a scalar is written. -/
inductive Style where
  /-- Without quotes. -/
  | plain
  /-- In quotes. -/
  | quoted
  /-- On lines of its own, which are kept. -/
  | literal
  /-- On lines of its own, which are folded. -/
  | folded
deriving DecidableEq

/-- A scalar. -/
structure Scalar where
  /-- How it is written. -/
  style : Style := .plain
  /-- What it says. -/
  text : String := ""
  /-- Its tag. -/
  tag : Option Bytes := none
deriving DecidableEq

namespace Scalar

/-- Whether a scalar leaves out a value. -/
def isAbsent (s : Scalar) : Bool := s.style = .plain && s.text = ""

/-- The tag of a kind of values of the standard. -/
def standardTag (kind : String) : Bytes := Utf8.encode ("tag:yaml.org,2002:" ++ kind)

/-- Whether a scalar may stand for a value of a kind. -/
def mayBe (kind : String) (s : Scalar) : Bool :=
  s.style = .plain || (s.style = .literal && s.tag = some (standardTag kind))

/-- The truth value that a scalar stands for. -/
def truth? (s : Scalar) : Option Bool :=
  if !s.mayBe "bool" then none
  else if s.text ∈ ["true", "True", "TRUE"] then some true
  else if s.text ∈ ["false", "False", "FALSE"] then some false
  else none

/-- The number that digits spell: with a mark of their base, or decimal without leading zeros. -/
def unsigned? : List Char → Option Nat
  | '0' :: 'x' :: ds => Numeral.word? 16 ds
  | '0' :: 'o' :: ds => Numeral.word? 8 ds
  | '0' :: 'b' :: ds => Numeral.word? 2 ds
  | ['0'] => some 0
  | '0' :: _ => none
  | ds => Numeral.word? 10 ds

/-- The number of 64 bits that a scalar stands for; a plus may stand before it. -/
def word? (s : Scalar) : Option Nat :=
  if !s.mayBe "int" then none
  else
    match s.text.toList with
    | '+' :: ds => unsigned? ds
    | ds => unsigned? ds

/-- The text of a tag that starts with an exclamation mark, without that. -/
def ownTag? (s : Scalar) : Option String :=
  match s.tag with
  | some (33 :: name) => Utf8.text? name
  | _ => none

/-- The name that a scalar chooses. Beside a tag that chooses there is nothing. -/
def choice? (s : Scalar) : Option String :=
  match s.ownTag? with
  | none => some s.text
  | some name =>
    if s.style = .plain && s.text ∈ ["", "~", "null", "Null", "NULL"] then some name else none

end Scalar

end Yaml

end NestedTxn
