/-!
# White space, words and lines

* `Char.isBlank`: the characters with the Unicode property White_Space.
* `Text.trim`, `Text.words`: a text without the white space around it, and the words between its
  white space.
* `Text.lines`: the lines of a text. A line ends at a line feed, with or without a carriage
  return before it; after the last line feed there is a line only if there is text.
-/

namespace NestedTxn

namespace Text

/-- The characters with the Unicode property White_Space. -/
def isBlank (c : Char) : Bool :=
  ('\t' ≤ c && c ≤ '\r') || c = ' ' || c = '\u0085' || c = '\u00A0' || c = '\u1680' ||
    ('\u2000' ≤ c && c ≤ '\u200A') || c = '\u2028' || c = '\u2029' || c = '\u202F' ||
    c = '\u205F' || c = '\u3000'

/-- The characters without the white space before and after them. -/
def trim (cs : List Char) : List Char :=
  ((cs.dropWhile isBlank).reverse.dropWhile isBlank).reverse

/-- The pieces of `cs` between the characters that satisfy `p`. -/
def pieces (p : Char → Bool) : List Char → List (List Char)
  | [] => [[]]
  | c :: cs =>
    if p c then [] :: pieces p cs
    else
      match pieces p cs with
      | [] => [[c]]
      | w :: ws => (c :: w) :: ws

/-- The words between the white space of `cs`. -/
def words (cs : List Char) : List (List Char) :=
  (pieces isBlank cs).filter (· ≠ [])

/-- A line without the carriage return that belongs to its end. -/
def stripReturn (line : List Char) : List Char :=
  if line.getLast? = some '\r' then line.dropLast else line

/-- The lines of `cs`, without their ends. -/
def lines (cs : List Char) : List (List Char) :=
  let ps := pieces (· = '\n') cs
  ps.dropLast.map stripReturn ++ (ps.getLast?.toList.filter (· ≠ []))

end Text

end NestedTxn
