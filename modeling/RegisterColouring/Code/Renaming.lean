/-
**Renaming variables.**

An instruction can be applied to other variables than its own: its operators, labels, numbers and
registers stay, and every variable operand, or variable that a memory cell is addressed by, is
replaced by its image.

Main definitions:

* `RegisterColouring.Item.rename`, `RegisterColouring.Instruction.rename` — renamed items and
  instructions.

Main results:

* `RegisterColouring.Instruction.rename_id` — renaming nothing changes nothing.
-/

import RegisterColouring.Code.Instruction

set_option autoImplicit false

namespace RegisterColouring

/-- An item with its variable renamed.  In a memory cell the variable is its base. -/
def Item.rename (image : String → String) : Item → Item
  | var name => var (image name)
  | memory (var name) offset => memory (var (image name)) offset
  | item => item

/-- A callee with its variable renamed. -/
def Callee.rename (image : String → String) : Callee → Callee
  | code address => code (address.rename image)
  | service s => service s

/-- **An instruction with its variables renamed.** -/
def Instruction.rename (image : String → String) : Instruction → Instruction
  | assign target source => assign (target.rename image) (source.rename image)
  | stackArgument target offset => stackArgument (target.rename image) offset
  | arith op target source => arith op (target.rename image) (source.rename image)
  | shift op target amount => shift op (target.rename image) (amount.rename image)
  | memoryArith op target source => memoryArith op (target.rename image) (source.rename image)
  | compare target op left right =>
    compare (target.rename image) op (left.rename image) (right.rename image)
  | jumpIf op left right target => jumpIf op (left.rename image) (right.rename image) target
  | label name => label name
  | goto target => goto target
  | ret => ret
  | call callee arguments => call (callee.rename image) arguments
  | step target direction => step (target.rename image) direction
  | address target base index scale =>
    address (target.rename image) (base.rename image) (index.rename image) scale

@[simp] theorem Item.rename_id (item : Item) : item.rename (fun v => v) = item := by
  cases item with
  | memory base offset => cases base <;> rfl
  | _ => rfl

@[simp] theorem Callee.rename_id (callee : Callee) : callee.rename (fun v => v) = callee := by
  cases callee <;> simp [Callee.rename]

/-- Renaming nothing changes nothing. -/
@[simp] theorem Instruction.rename_id (instruction : Instruction) :
    instruction.rename (fun v => v) = instruction := by
  cases instruction <;> simp [Instruction.rename]

end RegisterColouring
