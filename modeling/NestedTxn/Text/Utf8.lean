/-!
# Bytes and text

* `Bytes`: a sequence of bytes, ordered lexicographically.
* `Utf8.decode`: the characters of a sequence of bytes in UTF-8; the longest start of a character
  that is cut off, or a byte that starts none, counts as one damaged place.
* `Utf8.text?`: the text, if no place is damaged. `Utf8.lossy`: the text with U+FFFD for each
  damaged place.
-/

namespace NestedTxn

/-- A sequence of bytes. -/
abbrev Bytes := List UInt8

namespace Utf8

/-- What the first byte of a character longer than one byte says about the rest. -/
structure Lead where
  /-- The number of bytes that follow. -/
  following : Nat
  /-- The least second byte: a smaller one would spell a shorter character, or nothing. -/
  low : UInt8 := 0x80
  /-- The greatest second byte: a greater one would spell a surrogate, or pass U+10FFFF. -/
  high : UInt8 := 0xBF
  /-- The leading bits of the code point. -/
  bits : Nat

/-- The lead that a byte of at least 128 stands for, if it may start a character. -/
def lead? (b : UInt8) : Option Lead :=
  if b < 0xC2 then none
  else if b < 0xE0 then some { following := 1, bits := b.toNat - 0xC0 }
  else if b = 0xE0 then some { following := 2, low := 0xA0, bits := 0 }
  else if b = 0xED then some { following := 2, high := 0x9F, bits := 0xD }
  else if b < 0xF0 then some { following := 2, bits := b.toNat - 0xE0 }
  else if b = 0xF0 then some { following := 3, low := 0x90, bits := 0 }
  else if b < 0xF4 then some { following := 3, bits := b.toNat - 0xF0 }
  else if b = 0xF4 then some { following := 3, high := 0x8F, bits := 4 }
  else none

/-- Read `n` following bytes, the first between `low` and `high`, onto the bits of a code point.
Gives the code point if all are there, and the bytes that were not read. -/
def follow : Nat → UInt8 → UInt8 → Nat → Bytes → Option Nat × Bytes
  | 0, _, _, bits, bs => (some bits, bs)
  | _ + 1, _, _, _, [] => (none, [])
  | n + 1, low, high, bits, b :: bs =>
    if low ≤ b ∧ b ≤ high then follow n 0x80 0xBF (bits * 64 + (b.toNat - 0x80)) bs
    else (none, b :: bs)

theorem follow_length (n : Nat) (low high : UInt8) (bits : Nat) (bs : Bytes) :
    (follow n low high bits bs).2.length ≤ bs.length := by
  fun_induction follow n low high bits bs with
  | case1 => exact Nat.le_refl _
  | case2 => exact Nat.le_refl _
  | case3 n low high bits b bs h ih => exact Nat.le_succ_of_le ih
  | case4 => exact Nat.le_refl _

/-- The characters of `bs`, with `none` for each damaged place. -/
def decode : Bytes → List (Option Char)
  | [] => []
  | b :: bs =>
    if b < 0x80 then some (Char.ofNat b.toNat) :: decode bs
    else
      match lead? b with
      | none => none :: decode bs
      | some l =>
        let r := follow l.following l.low l.high l.bits bs
        r.1.map Char.ofNat :: decode r.2
termination_by bs => bs.length
decreasing_by
  · simp
  · simp
  · exact Nat.lt_succ_of_le (follow_length ..)

/-- The text that `bs` spells, if no place is damaged. -/
def text? (bs : Bytes) : Option String :=
  ((decode bs).mapM id).map String.ofList

/-- The text that `bs` spells, with U+FFFD for each damaged place. -/
def lossy (bs : Bytes) : String :=
  String.ofList ((decode bs).map (·.getD '\uFFFD'))

/-- The bytes of a text. -/
def encode (s : String) : Bytes :=
  s.toUTF8.toList

end Utf8

end NestedTxn
