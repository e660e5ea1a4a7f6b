/-!
# JSON values

* `Json`: a JSON value as it is written: members in their order, also those with equal names.
  A number keeps its value only if it is a natural number written without sign, fraction and
  exponent; a text keeps its characters only if its escapes spell characters.
* `Json.record?`: the fields of a record, which may be an object or an array.
* `Json.variant?`: the alternative that a value names, and its content.
-/

namespace NestedTxn

/-- A JSON value as it is written. -/
inductive Json where
  | null
  | bool (b : Bool)
  /-- A number; `none` unless it is a plain natural number. -/
  | number (value : Option Nat)
  /-- A text; `none` if an escape in it spells half a character. -/
  | text (value : Option String)
  | array (items : List Json)
  | object (members : List (Option String × Json))

namespace Json

/-- A natural number as a value. -/
def ofNat (n : Nat) : Json := .number (some n)

/-- A text as a value. -/
def ofString (s : String) : Json := .text (some s)

/-- An object with the given fields. -/
def ofFields (fields : List (String × Json)) : Json :=
  .object (fields.map fun f => (some f.1, f.2))

/-- What may be absent, as a value. -/
def ofOption {α : Type} (write : α → Json) : Option α → Json
  | none => .null
  | some a => write a

/-- The number that fits 64 bits. -/
def word? : Json → Option Nat
  | .number value => value.filter (· < UInt64.size)
  | _ => none

/-- The byte. -/
def byte? : Json → Option UInt8
  | .number value => (value.filter (· < UInt8.size)).map UInt8.ofNat
  | _ => none

/-- The truth value. -/
def bool? : Json → Option Bool
  | .bool b => some b
  | _ => none

/-- The text. -/
def string? : Json → Option String
  | .text value => value
  | _ => none

/-- The list of values that `read` accepts. -/
def list? {α : Type} (read : Json → Option α) : Json → Option (List α)
  | .array items => items.mapM read
  | _ => none

/-- A value that `read` accepts, or null. -/
def option? {α : Type} (read : Json → Option α) : Json → Option (Option α)
  | .null => some none
  | j => (read j).map some

/-- The only member of a list called `name`: `none` if there are several. -/
def only? (name : String) (members : List (Option String × Json)) : Option (Option Json) :=
  match members.filter (·.1 = some name) with
  | [] => some none
  | [m] => some (some m.2)
  | _ => none

/-- The fields `names` of a record, in that order; a field is `none` if it is missing. An object
has each of them at most once, and may have others. An array lists them in order, and may leave
out the last `spare` of them. -/
def record? (names : List String) (spare : Nat) : Json → Option (List (Option Json))
  | .object members =>
    if members.all (·.1.isSome) then names.mapM fun name => only? name members else none
  | .array items =>
    if names.length - spare ≤ items.length ∧ items.length ≤ names.length then
      some (items.map some ++ List.replicate (names.length - items.length) none)
    else none
  | _ => none

/-- A field that has to be there. -/
def required {α : Type} (read : Json → Option α) : Option Json → Option α
  | none => none
  | some j => read j

/-- A field that may be missing or null. -/
def optional {α : Type} (read : Json → Option α) : Option Json → Option (Option α)
  | none => some none
  | some j => option? read j

/-- A field with a value for when it is missing. -/
def withDefault {α : Type} (default : α) (read : Json → Option α) : Option Json → Option α
  | none => some default
  | some j => read j

/-- The alternative that a value names, and its content if it has one. -/
def variant? : Json → Option (String × Option Json)
  | .text (some name) => some (name, none)
  | .object [(some name, content)] => some (name, some content)
  | _ => none

/-- The name of an alternative without content: a null in the place of the content is allowed. -/
def bare? (j : Json) : Option String :=
  match j.variant? with
  | some (name, none) | some (name, some .null) => some name
  | _ => none

end Json

end NestedTxn
