/-
**Items as symbols.**

Every item other than a memory cell is written as one symbol.  A register is written by its name, a
variable, a label or a function as an identifier after its sigil, and a number in decimal; no symbol
has two of these forms.

Main definitions:

* `RegisterColouring.isIdentifier` — the names of variables, labels and functions;
* `RegisterColouring.Item.ofSymbol?` — the item that a symbol denotes.
-/

import RegisterColouring.Code.Item

set_option autoImplicit false

namespace RegisterColouring

/-- A character that can start an identifier. -/
def isIdentifierStart (c : Char) : Bool :=
  c == '_' || ('a' ≤ c && c ≤ 'z') || ('A' ≤ c && c ≤ 'Z')

/-- A character that can stand in an identifier after the first one. -/
def isIdentifierRest (c : Char) : Bool := isIdentifierStart c || ('0' ≤ c && c ≤ '9')

/-- A letter or underscore, followed by letters, underscores and digits, all of them ASCII. -/
def isIdentifier : List Char → Bool
  | [] => false
  | c :: cs => isIdentifierStart c && cs.all isIdentifierRest

/-- An item built from an identifier. -/
def Item.ofIdentifier? (make : String → Item) (cs : List Char) : Option Item :=
  if isIdentifier cs then some (make (String.ofList cs)) else none

/-- **The item that a symbol denotes**, if it denotes one. -/
def Item.ofSymbol? (text : String) : Option Item :=
  if Register.isRegister text then some (register text)
  else match text.toList with
    | '%' :: cs => ofIdentifier? var cs
    | ':' :: cs => ofIdentifier? label cs
    | '@' :: cs => ofIdentifier? function cs
    | cs => (Numeral.int64? cs).map number

end RegisterColouring
