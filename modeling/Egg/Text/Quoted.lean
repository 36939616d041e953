-- SUMMARY: Quoting a text so that it fits on one line and every character of it can be told.
import Egg.Text.Unprintable
import Egg.Text.ExtendingMark

/-! # Quoted texts

A quoted text stands between double quotes. The quote, the backslash and the
common controls have short escapes. A character that has no glyph of its own, or
that would be drawn on the character before it, is written by its code point in
hexadecimal. All else stands for itself. -/

namespace Egg.Text

/-- The escape of a character by its code point: lower-case hexadecimal digits
    without leading zeros, in braces. -/
def codePointEscape (c : Char) : List Char :=
  ['\\', 'u', '{'] ++ Nat.toDigits 16 c.toNat ++ ['}']

/-- How one character is written between the quotes. -/
def escape (c : Char) : List Char :=
  match c with
  | '\x00' => ['\\', '0']
  | '\t' => ['\\', 't']
  | '\r' => ['\\', 'r']
  | '\n' => ['\\', 'n']
  | '"' => ['\\', '"']
  | '\\' => ['\\', '\\']
  | c => if isUnprintable c || isExtendingMark c then codePointEscape c else [c]

/-- The quoted form of a text. -/
def quoted (text : String) : String :=
  String.ofList ('"' :: text.toList.flatMap escape ++ ['"'])

end Egg.Text
