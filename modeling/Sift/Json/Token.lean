import Sift.Json.Basic

/-!
# Tokens of JSON text

JSON text is read in two passes. The first one, here, goes over the characters once and cuts the
text into tokens: brackets, braces, commas, colons, strings and the values that are written without
quotes. The second pass (`Sift.Json.Reader`) goes over the tokens once.

A run of letters, digits, signs and points is one *bare* word, and only when the word ends is it
looked up among the literals and numerals. No JSON text has two such values side by side, so the
longest run is the right one.
-/

namespace Sift.Json

/-- A token of JSON text. -/
inductive Token
  | arrayOpen
  | arrayClose
  | objectOpen
  | objectClose
  | comma
  | colon
  /-- A string, which may be a value or the name of a member. -/
  | string (text : String)
  /-- A value that is written without quotes. -/
  | scalar (value : Json)

/-- What the characters read last belong to. Words and strings are held latest character first. -/
inductive Position
  /-- Between two tokens. -/
  | between
  /-- In a bare word. -/
  | bare (word : List Char)
  /-- In a string. -/
  | string (text : List Char)
  /-- In a string, behind a backslash. -/
  | escape (text : List Char)
  /-- In a string, in the code of an escape by number: `missing` digits are still to come. `high` is
  the first half of a pair of codes, if one went before. -/
  | code (text : List Char) (high : Option Nat) (missing value : Nat)
  /-- In a string, behind the first half of a pair of codes. -/
  | pair (text : List Char) (high : Nat)
  /-- In a string, behind the first half of a pair of codes and a backslash. -/
  | pairEscape (text : List Char) (high : Nat)

/-- The state of the first pass: a position and the tokens found, latest first. -/
structure Scan where
  /-- Where the pass is. -/
  position : Position
  /-- What it has found. -/
  tokens : List Token

/-- Whether a character separates tokens and means nothing. -/
def isSpace (c : Char) : Bool :=
  c == ' ' || c == '\t' || c == '\n' || c == '\r'

/-- Whether a character may stand in a bare word. -/
def isBare (c : Char) : Bool :=
  c.isAlphanum || c == '+' || c == '-' || c == '.'

/-- The value that a bare word denotes. -/
def scalar? (word : List Char) : Option Json :=
  match String.ofList word with
  | "null" => some .null
  | "true" => some (.bool true)
  | "false" => some (.bool false)
  | _ => (Number.ofNumeral? word).map .number

/-- The token that a single character stands for. -/
def punctuation? (c : Char) : Option Token :=
  match c with
  | '[' => some .arrayOpen
  | ']' => some .arrayClose
  | '{' => some .objectOpen
  | '}' => some .objectClose
  | ',' => some .comma
  | ':' => some .colon
  | _ => none

/-- The character that an escape of two characters stands for. -/
def escaped? (c : Char) : Option Char :=
  match c with
  | '"' => some '"'
  | '\\' => some '\\'
  | '/' => some '/'
  | 'b' => some '\x08'
  | 'f' => some '\x0c'
  | 'n' => some '\n'
  | 'r' => some '\r'
  | 't' => some '\t'
  | _ => none

/-- The value of a hexadecimal digit in either case. -/
def hexValue? (c : Char) : Option Nat :=
  if '0' ≤ c ∧ c ≤ '9' then some (c.toNat - '0'.toNat)
  else if 'a' ≤ c ∧ c ≤ 'f' then some (c.toNat - 'a'.toNat + 10)
  else if 'A' ≤ c ∧ c ≤ 'F' then some (c.toNat - 'A'.toNat + 10)
  else none

/-- Whether a code is the first half of a pair. -/
def isHighHalf (code : Nat) : Bool :=
  0xD800 ≤ code && code < 0xDC00

/-- Whether a code is the second half of a pair. -/
def isLowHalf (code : Nat) : Bool :=
  0xDC00 ≤ code && code < 0xE000

/-- Where the pass stands behind the last digit of a code. The two halves of a pair form one
character, and no half stands alone. -/
def afterCode (text : List Char) (high : Option Nat) (code : Nat) : Option Position :=
  match high with
  | some first =>
    if isLowHalf code then
      some (.string (Char.ofNat (0x10000 + (first - 0xD800) * 0x400 + (code - 0xDC00)) :: text))
    else none
  | none =>
    if isHighHalf code then some (.pair text code)
    else if isLowHalf code then none
    else some (.string (Char.ofNat code :: text))

namespace Scan

/-- One character between two tokens. -/
def stepBetween (tokens : List Token) (c : Char) : Option Scan :=
  if isSpace c then some ⟨.between, tokens⟩
  else if c = '"' then some ⟨.string [], tokens⟩
  else if isBare c then some ⟨.bare [c], tokens⟩
  else (punctuation? c).map fun token => ⟨.between, token :: tokens⟩

/-- One character. -/
def step (scan : Scan) (c : Char) : Option Scan :=
  match scan.position with
  | .between => stepBetween scan.tokens c
  | .bare word =>
    if isBare c then some ⟨.bare (c :: word), scan.tokens⟩
    else (scalar? word.reverse).bind fun value => stepBetween (.scalar value :: scan.tokens) c
  | .string text =>
    if c = '"' then some ⟨.between, .string (String.ofList text.reverse) :: scan.tokens⟩
    else if c = '\\' then some ⟨.escape text, scan.tokens⟩
    else if c.toNat < 0x20 then none
    else some ⟨.string (c :: text), scan.tokens⟩
  | .escape text =>
    if c = 'u' then some ⟨.code text none 4 0, scan.tokens⟩
    else (escaped? c).map fun e => ⟨.string (e :: text), scan.tokens⟩
  | .code text high missing value =>
    (hexValue? c).bind fun digit =>
      if missing ≤ 1 then
        (afterCode text high (16 * value + digit)).map fun position => ⟨position, scan.tokens⟩
      else some ⟨.code text high (missing - 1) (16 * value + digit), scan.tokens⟩
  | .pair text high => if c = '\\' then some ⟨.pairEscape text high, scan.tokens⟩ else none
  | .pairEscape text high =>
    if c = 'u' then some ⟨.code text (some high) 4 0, scan.tokens⟩ else none

/-- The tokens in order, once all characters are read. -/
def finish (scan : Scan) : Option (List Token) :=
  match scan.position with
  | .between => some scan.tokens.reverse
  | .bare word => (scalar? word.reverse).map fun value => (.scalar value :: scan.tokens).reverse
  | _ => none

end Scan

/-- The tokens of a text, unless a token is malformed. -/
def tokens? (text : String) : Option (List Token) :=
  (text.toList.foldlM Scan.step ⟨.between, []⟩).bind Scan.finish

end Sift.Json
