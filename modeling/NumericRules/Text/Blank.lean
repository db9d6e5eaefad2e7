/-! # Blank characters

The white space of Unicode and its control characters. Both separate the words
of a rule; only white space is trimmed from the ends of a text.
-/

namespace NumericRules.Text

/-- The characters with the Unicode property White_Space. -/
def isWhite (character : Char) : Bool :=
  let code := character.toNat
  (9 ≤ code && code ≤ 13) || code == 0x20 || code == 0x85 || code == 0xA0 ||
    code == 0x1680 || (0x2000 ≤ code && code ≤ 0x200A) || code == 0x2028 ||
    code == 0x2029 || code == 0x202F || code == 0x205F || code == 0x3000

/-- The characters of the Unicode category Cc. -/
def isControl (character : Char) : Bool :=
  let code := character.toNat
  code < 0x20 || (0x7F ≤ code && code < 0xA0)

/-- White space and control characters. -/
def isBlank (character : Char) : Bool :=
  isWhite character || isControl character

/-- The text without the white space that ends it. -/
def trimEnd (text : List Char) : List Char :=
  (text.reverse.dropWhile isWhite).reverse

/-- The text without the white space at its ends. -/
def trim (text : List Char) : List Char :=
  trimEnd (text.dropWhile isWhite)

/-- Equality of a text with a lower-case ASCII word, in any letter case. -/
def isWord (word : String) (text : List Char) : Bool :=
  text.map Char.toLower == word.toList

end NumericRules.Text
