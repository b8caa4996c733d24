/-
**Tokens.**

A source text is a sequence of tokens with blanks and comments between them.  Parentheses are tokens
by themselves, a comment goes from a semicolon to the end of its line, and every other maximal run of
characters is a symbol.

Main definitions:

* `RegisterColouring.Token` — tokens with their positions;
* `RegisterColouring.isSymbolLetter` — the characters of symbols;
* `RegisterColouring.Token.scan` — the tokens of a text.
-/

import RegisterColouring.Text.Blank
import RegisterColouring.Text.Source

set_option autoImplicit false

namespace RegisterColouring

/-- A character that can stand in a symbol. -/
def isSymbolLetter (c : Char) : Bool :=
  c != '(' && c != ')' && c != ';' && !isBlank c

/-- A parenthesis or a symbol, with the position of its first character. -/
inductive Token where
  | opening (start : Nat)
  | closing (start : Nat)
  | symbol (start : Nat) (text : List Char)
  deriving DecidableEq, Repr

namespace Token

/-- The position of a token's first character. -/
def start : Token → Nat
  | opening start => start
  | closing start => start
  | symbol start _ => start

/-- The characters of a token. -/
def text : Token → List Char
  | opening _ => ['(']
  | closing _ => [')']
  | symbol _ text => text

/-- The span of a token. -/
def span (token : Token) : Span := ⟨token.start, token.start + token.text.length⟩

/-! ### Scanning -/

/-- Where the scanner stands: between tokens, inside a comment, or inside a symbol that started at
`start` and whose characters so far are `read`, in reverse. -/
inductive Place where
  | between
  | comment
  | inside (start : Nat) (read : List Char)
  deriving DecidableEq, Repr

/-- The symbol that ends where the scanner stands, if there is one. -/
def Place.finished : Place → List Token
  | .inside start read => [symbol start read.reverse]
  | _ => []

/-- The place after a symbol letter at a position. -/
def Place.extend (place : Place) (position : Nat) (c : Char) : Place :=
  match place with
  | .inside start read => .inside start (c :: read)
  | _ => .inside position [c]

/-- The token that a character other than a symbol letter forms by itself, if it forms one. -/
def parenthesis (position : Nat) (c : Char) : List Token :=
  if c = '(' then [opening position] else if c = ')' then [closing position] else []

/-- The tokens of the text from a position on. -/
def scanFrom (place : Place) (position : Nat) : List Char → List Token
  | [] => place.finished
  | c :: rest =>
    if place = .comment then
      scanFrom (if c = '\n' then .between else .comment) (position + 1) rest
    else if isSymbolLetter c then
      scanFrom (place.extend position c) (position + 1) rest
    else
      place.finished ++ parenthesis position c ++
        scanFrom (if c = ';' then .comment else .between) (position + 1) rest

/-- **The tokens of a text.** -/
def scan (text : List Char) : List Token := scanFrom .between 0 text

end Token

end RegisterColouring
