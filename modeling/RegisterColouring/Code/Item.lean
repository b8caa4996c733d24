/-
**Items.**

An item is an operand of an instruction: a register, a variable, a memory cell, a number, a label or
the name of a function.  Registers other than the stack pointer and variables hold values, and these
values are what liveness and colouring are about; a memory cell takes part through the item that
holds its address.

Main definitions:

* `RegisterColouring.Item`, `RegisterColouring.Item.render` — items and their text;
* `RegisterColouring.Name`, `RegisterColouring.Item.name?` — the name under which the value that an
  item depends on is tracked;
* `RegisterColouring.Item.var?` — the variable in an item;
* `RegisterColouring.Item.cell` — memory cells with a proper address.
-/

import RegisterColouring.Text.Numeral
import RegisterColouring.Code.Register

set_option autoImplicit false

namespace RegisterColouring

/-- The name of a value that is tracked: a register by its own name, a variable with its sigil. -/
abbrev Name := String

/-- The tracked name of a variable. -/
def Name.ofVariable (v : String) : Name := "%" ++ v

/-- A name with the form of a variable: a sigil and something after it. -/
def Name.isVariable (name : Name) : Bool :=
  match name.toList with
  | '%' :: _ :: _ => true
  | _ => false

/-- The text of a name without one leading sigil, if it has one. -/
def Name.unsigiled (name : Name) : String :=
  match name.toList with
  | '%' :: rest => String.ofList rest
  | _ => name

/-- An operand of an instruction. -/
inductive Item where
  | register (name : String)
  | var (name : String)
  | memory (base : Item) (offset : Int64)
  | number (value : Int64)
  | label (name : String)
  | function (name : String)
  deriving DecidableEq, Repr

namespace Item

/-- **The text of an item.** -/
def render : Item → String
  | register name => name
  | var name => Name.ofVariable name
  | memory base offset => "mem " ++ render base ++ " " ++ Numeral.integer offset.toInt
  | number value => Numeral.integer value.toInt
  | label name => ":" ++ name
  | function name => "@" ++ name

/-- The name of the value that an item depends on, if it depends on a tracked one.  The stack
pointer is not tracked. -/
def name? : Item → Option Name
  | register name => if name = Register.stackPointer then none else some name
  | var name => some (Name.ofVariable name)
  | memory base _ => name? base
  | _ => none

/-- The tracked names of an item, as a list of at most one name. -/
def names (item : Item) : List Name := item.name?.toList

/-- The variable in an item: the item itself, or the one its address is built from. -/
def var? : Item → Option String
  | var name => some name
  | memory base _ => var? base
  | _ => none

/-- Whether an item is a memory cell. -/
def isMemory : Item → Bool
  | memory _ _ => true
  | _ => false

/-- Whether a value can be assigned to an item in an instruction: variables, and registers other than
the stack pointer. -/
def isWritable : Item → Bool
  | var _ => true
  | register name => name != Register.stackPointer
  | _ => false

/-- Whether an item can be computed with: registers, variables and numbers. -/
def isValue : Item → Bool
  | register _ => true
  | var _ => true
  | number _ => true
  | _ => false

/-! ### Memory cells -/

/-- An item that can be the base of an address: a register or a variable. -/
def isBase : Item → Bool
  | register _ => true
  | var _ => true
  | _ => false

/-- An item that was used as the base of an address and cannot be one. -/
structure BadBase where
  base : Item
  deriving DecidableEq, Repr

/-- The text of the fault. -/
def BadBase.message (fault : BadBase) : String :=
  "invalid memory base \"" ++ fault.base.render ++ "\""

/-- The memory cell at an offset from a base, if the base can be one. -/
def cell (base : Item) (offset : Int64) : Except BadBase Item :=
  if base.isBase then .ok (memory base offset) else .error ⟨base⟩

/-- The cell of the frame at an offset. -/
def slot (offset : Int64) : Item := memory (register Register.stackPointer) offset

@[simp] theorem name?_var (v : String) : (var v).name? = some (Name.ofVariable v) := rfl

@[simp] theorem name?_memory (base : Item) (offset : Int64) :
    (memory base offset).name? = base.name? := rfl

@[simp] theorem names_slot (offset : Int64) : (slot offset).names = [] := rfl

end Item

end RegisterColouring
