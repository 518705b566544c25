import Sift.Text.Printable

/-!
# Quoted names

A name that a message reports is put between quotation marks in which every character can be seen:
the quotation mark, the backslash, the tabulator, the two line ends and the null character have
escapes of two characters, any other character that cannot be seen is written as its code point in
hexadecimal, and all the rest stands for itself.
-/

namespace Sift.Text

/-- The digits of a number in base sixteen, in lower case and without leading zeros. -/
def hexDigits (n : Nat) : List Char :=
  Nat.toDigits 16 n

/-- One character of a name between quotation marks. -/
def quotedChar (c : Char) : List Char :=
  match c with
  | '"' => ['\\', '"']
  | '\\' => ['\\', '\\']
  | '\t' => ['\\', 't']
  | '\r' => ['\\', 'r']
  | '\n' => ['\\', 'n']
  | '\x00' => ['\\', '0']
  | c => if isSeen c then [c] else ['\\', 'u', '{'] ++ hexDigits c.toNat ++ ['}']

/-- A name between quotation marks, as messages report it. -/
def quoted (name : String) : String :=
  String.ofList (['"'] ++ name.toList.flatMap quotedChar ++ ['"'])

example : quotedChar '\'' = ['\''] ∧ quotedChar '"' = ['\\', '"'] := by decide +kernel
example : String.ofList (quotedChar '\x7f') = "\\u\x7b7f\x7d" := by decide +kernel

end Sift.Text
