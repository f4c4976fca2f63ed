/-!
# White space

The characters that separate words, after the Unicode property `White_Space`. Control characters
of other kinds (U+001C to U+001F) and characters of no width (U+200B, U+FEFF) are not among them.

* `Text.isBlank` — whether a character is white space.
* `Text.trim` — a text without the white space at both ends.
* `Text.words` — the maximal runs without white space.
-/

namespace FiniteAutomata.Text

/-- Whether a character is white space. -/
def isBlank (c : Char) : Bool :=
  let code := c.toNat
  (0x09 ≤ code && code ≤ 0x0d) || code == 0x20 || code == 0x85 || code == 0xa0 ||
    code == 0x1680 || (0x2000 ≤ code && code ≤ 0x200a) || code == 0x2028 || code == 0x2029 ||
    code == 0x202f || code == 0x205f || code == 0x3000

/-- The text without the white space at both ends. -/
def trim (cs : List Char) : List Char :=
  ((cs.dropWhile isBlank).reverse.dropWhile isBlank).reverse

/-- Whether a text holds nothing but white space. -/
def isBlankText (s : String) : Bool := s.toList.all isBlank

/-- The maximal runs of characters that are not white space, in order. -/
def words (cs : List Char) : List (List Char) :=
  (cs.splitOnP isBlank).filter fun w => !w.isEmpty

end FiniteAutomata.Text
