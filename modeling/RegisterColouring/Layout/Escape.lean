/-
**Terminal escapes.**

A list of attributes changes how a terminal shows text: bold, underlined or in colour.  An escape with
no attributes leaves text as it is.

Main definitions:

* `RegisterColouring.Escape` with `bold`, `underline` and `foreground`;
* `RegisterColouring.Escape.build`, `RegisterColouring.Escape.wrap` — the control sequence, and text
  between it and a reset.
-/

import RegisterColouring.Text.Numeral

set_option autoImplicit false

namespace RegisterColouring

/-- The attributes of an escape, in order. -/
structure Escape where
  attributes : List UInt64
  deriving DecidableEq, Repr

namespace Escape

/-- The escape that changes nothing. -/
def plain : Escape := ⟨[]⟩

/-- The escape that undoes all others. -/
def reset : Escape := ⟨[0]⟩

/-- One more attribute. -/
def add (escape : Escape) (number : UInt64) : Escape := ⟨escape.attributes ++ [number]⟩

/-- Bold text. -/
def bold (escape : Escape) : Escape := escape.add 1

/-- Underlined text. -/
def underline (escape : Escape) : Escape := escape.add 4

/-- Text in a colour. -/
def foreground (escape : Escape) (colour : UInt64) : Escape := escape.add (30 + colour)

/-- The number of the colour red. -/
def red : UInt64 := 1

/-- The number of the colour yellow. -/
def yellow : UInt64 := 3

/-- The number of the colour cyan. -/
def cyan : UInt64 := 6

/-- The control sequence of an escape. -/
def build (escape : Escape) : String :=
  "\x1b[" ++ ";".intercalate (escape.attributes.map fun a => Numeral.natural a.toNat) ++ "m"

/-- What an escape puts before text and after it, if escapes are enabled. -/
def marks (escape : Escape) (enabled : Bool) : String × String :=
  if enabled && !escape.attributes.isEmpty then (escape.build, reset.build) else ("", "")

/-- Text between an escape and a reset, if escapes are enabled. -/
def wrap (escape : Escape) (text : String) (enabled : Bool) : String :=
  (escape.marks enabled).1 ++ text ++ (escape.marks enabled).2

@[simp] theorem wrap_disabled (escape : Escape) (text : String) :
    escape.wrap text false = text := by
  simp [wrap, marks]

end Escape

end RegisterColouring
