/-
**Instructions.**

An instruction of L2 moves a value, computes with one, jumps, calls or returns.  This module holds
the instructions, their text, and what can be read off an instruction by itself: its operands, and
whether control can go on to the instruction after it.

Main definitions:

* `RegisterColouring.Instruction` with `RegisterColouring.Instruction.render`;
* `RegisterColouring.Instruction.operands` — the operands in textual order;
* `RegisterColouring.Instruction.isTerminal` — control never goes on to the next instruction.
-/

import RegisterColouring.Code.Item

set_option autoImplicit false

namespace RegisterColouring

/-! ### Operators -/

/-- Arithmetic on a destination in place. -/
inductive ArithOp where
  | add
  | sub
  | mul
  | and
  deriving DecidableEq, Repr

namespace ArithOp

/-- The text of an arithmetic operator. -/
def render : ArithOp → String
  | add => "+="
  | sub => "-="
  | mul => "*="
  | and => "&="

/-- The arithmetic operator with a given text. -/
def ofText? (text : String) : Option ArithOp :=
  if text = "+=" then some add
  else if text = "-=" then some sub
  else if text = "*=" then some mul
  else if text = "&=" then some and
  else none

@[simp] theorem ofText?_render (op : ArithOp) : ofText? op.render = some op := by
  cases op <;> decide

/-- Addition and subtraction also work on memory cells. -/
def worksOnMemory : ArithOp → Bool
  | add => true
  | sub => true
  | _ => false

end ArithOp

/-- Shifts of a destination in place. -/
inductive ShiftOp where
  | left
  | right
  deriving DecidableEq, Repr

namespace ShiftOp

/-- The text of a shift operator. -/
def render : ShiftOp → String
  | left => "<<="
  | right => ">>="

/-- The shift operator with a given text. -/
def ofText? (text : String) : Option ShiftOp :=
  if text = "<<=" then some left else if text = ">>=" then some right else none

@[simp] theorem ofText?_render (op : ShiftOp) : ofText? op.render = some op := by
  cases op <;> decide

end ShiftOp

/-- Comparisons of two values. -/
inductive Comparison where
  | less
  | lessOrEqual
  | equal
  deriving DecidableEq, Repr

namespace Comparison

/-- The text of a comparison. -/
def render : Comparison → String
  | less => "<"
  | lessOrEqual => "<="
  | equal => "="

/-- The comparison with a given text. -/
def ofText? (text : String) : Option Comparison :=
  if text = "<" then some less
  else if text = "<=" then some lessOrEqual
  else if text = "=" then some equal
  else none

@[simp] theorem ofText?_render (op : Comparison) : ofText? op.render = some op := by
  cases op <;> decide

end Comparison

/-- Adding or subtracting one in place. -/
inductive Step where
  | up
  | down
  deriving DecidableEq, Repr

/-- The text of a step. -/
def Step.render : Step → String
  | up => "++"
  | down => "--"

/-! ### Callees -/

/-- A service of the runtime system. -/
inductive Service where
  | print
  | input
  | allocate
  | tupleError
  | tensorError
  deriving DecidableEq, Repr

namespace Service

/-- The services in the order in which they are numbered. -/
def all : List Service := [print, input, allocate, tupleError, tensorError]

/-- The text of a service. -/
def render : Service → String
  | print => "print"
  | input => "input"
  | allocate => "allocate"
  | tupleError => "tuple-error"
  | tensorError => "tensor-error"

/-- The service with a given text. -/
def ofText? (text : String) : Option Service := all.find? (·.render == text)

/-- The error services never return to their caller. -/
def returns : Service → Bool
  | tupleError => false
  | tensorError => false
  | _ => true

end Service

/-- What a call transfers control to: code at an address, or a service. -/
inductive Callee where
  | code (address : Item)
  | service (service : Service)
  deriving DecidableEq, Repr

namespace Callee

/-- The text of a callee. -/
def render : Callee → String
  | code address => address.render
  | service s => s.render

/-- The kind of a call in one word. -/
def keyword : Callee → String
  | code _ => "call"
  | service s => s.render

/-- Whether control comes back from a callee. -/
def returns : Callee → Bool
  | code _ => true
  | service s => s.returns

/-- The operands a callee contributes. -/
def operands : Callee → List Item
  | code address => [address]
  | service _ => []

end Callee

/-! ### Instructions -/

/-- **An instruction.** -/
inductive Instruction where
  | assign (target source : Item)
  | stackArgument (target : Item) (offset : Int64)
  | arith (op : ArithOp) (target source : Item)
  | shift (op : ShiftOp) (target amount : Item)
  | memoryArith (op : ArithOp) (target source : Item)
  | compare (target : Item) (op : Comparison) (left right : Item)
  | jumpIf (op : Comparison) (left right : Item) (target : String)
  | label (name : String)
  | goto (target : String)
  | ret
  | call (callee : Callee) (arguments : Int64)
  | step (target : Item) (direction : Step)
  | address (target base index : Item) (scale : Int64)
  deriving DecidableEq, Repr

namespace Instruction

/-- Words in parentheses, with a space between neighbours. -/
def form (words : List String) : String := "(" ++ " ".intercalate words ++ ")"

/-- **The text of an instruction.** -/
def render : Instruction → String
  | assign target source => form [target.render, "<-", source.render]
  | stackArgument target offset =>
    form [target.render, "<-", "stack-arg", (Item.number offset).render]
  | arith op target source => form [target.render, op.render, source.render]
  | shift op target amount => form [target.render, op.render, amount.render]
  | memoryArith op target source => form [target.render, op.render, source.render]
  | compare target op left right =>
    form [target.render, "<-", left.render, op.render, right.render]
  | jumpIf op left right target =>
    form ["cjump", left.render, op.render, right.render, (Item.label target).render]
  | label name => (Item.label name).render
  | goto target => form ["goto", (Item.label target).render]
  | ret => form ["return"]
  | call callee arguments => form ["call", callee.render, (Item.number arguments).render]
  | step target direction => form [target.render ++ direction.render]
  | address target base index scale =>
    form [target.render, "@", base.render, index.render, (Item.number scale).render]

/-- **The operands of an instruction**, numbers and labels included, in textual order. -/
def operands : Instruction → List Item
  | assign target source => [target, source]
  | stackArgument target offset => [target, .number offset]
  | arith _ target source => [target, source]
  | shift _ target amount => [target, amount]
  | memoryArith _ target source => [target, source]
  | compare target _ left right => [target, left, right]
  | jumpIf _ left right target => [left, right, .label target]
  | label name => [.label name]
  | goto target => [.label target]
  | ret => []
  | call callee arguments => callee.operands ++ [.number arguments]
  | step target _ => [target]
  | address target base index scale => [target, base, index, .number scale]

/-- Control never goes on to the next instruction, nor anywhere else in the function: a return, or a
call that does not come back. -/
def isTerminal : Instruction → Bool
  | ret => true
  | call callee _ => !callee.returns
  | _ => false

/-- The variables of an instruction, in operand order, with repetitions. -/
def vars (instruction : Instruction) : List String :=
  instruction.operands.filterMap Item.var?

end Instruction

end RegisterColouring
