/-
**Quoted text.**

A text is quoted by putting it between quotation marks and writing the marks, backslashes and all
characters that cannot be shown as escapes, so that the result stands on one line.

Main definitions:

* `RegisterColouring.Quoted.escape` — a character inside quotation marks;
* `RegisterColouring.Quoted.text`, `RegisterColouring.Quoted.character` — quoted texts and characters.
-/

import RegisterColouring.Text.Printable

set_option autoImplicit false

namespace RegisterColouring

namespace Quoted

/-- A number in hexadecimal, with zeros in front up to a width. -/
def hexadecimal (width n : Nat) : List Char :=
  let digits := Nat.toDigits 16 n
  List.replicate (width - digits.length) '0' ++ digits

/-- The letter that stands for a control character after a backslash. -/
def controlLetter? (c : Char) : Option Char :=
  match c.toNat with
  | 0x07 => some 'a'
  | 0x08 => some 'b'
  | 0x09 => some 't'
  | 0x0A => some 'n'
  | 0x0B => some 'v'
  | 0x0C => some 'f'
  | 0x0D => some 'r'
  | _ => none

/-- **A character inside the given quotation marks.** -/
def escape (mark c : Char) : List Char :=
  if c = mark || c = '\\' then ['\\', c]
  else if isPrintable c then [c]
  else match controlLetter? c with
    | some letter => ['\\', letter]
    | none =>
      if c.toNat < 0x20 || c.toNat = 0x7F then '\\' :: 'x' :: hexadecimal 2 c.toNat
      else if c.toNat < 0x10000 then '\\' :: 'u' :: hexadecimal 4 c.toNat
      else '\\' :: 'U' :: hexadecimal 8 c.toNat

/-- A text in double quotation marks. -/
def text (s : String) : String :=
  "\"" ++ String.ofList (s.toList.flatMap (escape '"')) ++ "\""

/-- A character in single quotation marks. -/
def character (c : Char) : String := "'" ++ String.ofList (escape '\'' c) ++ "'"

end Quoted

end RegisterColouring
