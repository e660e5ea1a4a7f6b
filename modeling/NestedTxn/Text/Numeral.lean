/-!
# Numerals

* `Numeral.digit?`: the value of a digit in a base of up to 16.
* `Numeral.ofDigits?`: the number that a sequence of digits spells. There has to be one digit at
  least.
* `Numeral.word?`: the same, if the number fits 64 bits.
-/

namespace NestedTxn

namespace Numeral

/-- The value of a digit in base `base`; the digits from ten on are letters of either case. -/
def digit? (base : Nat) (c : Char) : Option Nat :=
  let value :=
    if '0' ≤ c ∧ c ≤ '9' then c.toNat - '0'.toNat
    else if 'a' ≤ c ∧ c ≤ 'f' then c.toNat - 'a'.toNat + 10
    else if 'A' ≤ c ∧ c ≤ 'F' then c.toNat - 'A'.toNat + 10
    else base
  if value < base then some value else none

/-- The number that digits in base `base` spell. -/
def ofDigits? (base : Nat) (cs : List Char) : Option Nat :=
  if cs = [] then none
  else (cs.mapM (digit? base)).map (·.foldl (fun n d => n * base + d) 0)

/-- The number that digits spell, if it fits 64 bits. -/
def word? (base : Nat) (cs : List Char) : Option Nat :=
  (ofDigits? base cs).filter (· < UInt64.size)

end Numeral

end NestedTxn
