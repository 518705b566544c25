/-!
# White space and letter case

A *blank* is a character with the Unicode property `White_Space`. Texts that come from a request or
from the environment (numerals, flags, names of conjunctions and databases, column declarations) are
read with the blanks at both ends removed. Letter case is folded for the ASCII letters only, so that
no other letter ever turns into an ASCII one.
-/

namespace Sift.Text

/-- The code points with the property `White_Space`, as inclusive ranges. -/
def blankRanges : List (Nat × Nat) :=
  [(0x09, 0x0D), (0x20, 0x20), (0x85, 0x85), (0xA0, 0xA0), (0x1680, 0x1680), (0x2000, 0x200A),
    (0x2028, 0x2029), (0x202F, 0x202F), (0x205F, 0x205F), (0x3000, 0x3000)]

/-- Whether a character is white space. -/
def isBlank (c : Char) : Bool :=
  blankRanges.any fun range => range.1 ≤ c.toNat && c.toNat ≤ range.2

/-- The characters without the blanks at the end. -/
def trimEnd (text : List Char) : List Char :=
  (text.reverse.dropWhile isBlank).reverse

/-- The characters without the blanks at both ends. -/
def trimChars (text : List Char) : List Char :=
  trimEnd (text.dropWhile isBlank)

/-- A text without the blanks at both ends. -/
def trim (text : String) : String :=
  String.ofList (trimChars text.toList)

/-- A text with its ASCII letters in lower case. -/
def lower (text : String) : String :=
  String.ofList (text.toList.map Char.toLower)

/-- A text with its ASCII letters in upper case. -/
def upper (text : String) : String :=
  String.ofList (text.toList.map Char.toUpper)

/-- A keyword as it is compared: without surrounding blanks and in lower case. -/
def keyword (text : String) : String :=
  lower (trim text)

/-- Whether the first list of characters stands somewhere inside the second. -/
def occursIn (needle : List Char) : List Char → Bool
  | [] => needle.isEmpty
  | c :: rest => needle.isPrefixOf (c :: rest) || occursIn needle rest

end Sift.Text
