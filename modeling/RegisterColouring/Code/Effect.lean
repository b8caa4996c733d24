/-
**Effects.**

The effect of an instruction is the list of names whose values it reads and the list of names it
overwrites.  A store into memory overwrites no name: it reads the address.  Calls and returns act on
registers as the calling convention lays down.

Main definitions:

* `RegisterColouring.Effect` — names read and names written;
* `RegisterColouring.Instruction.effect` — the effect of an instruction.
-/

import RegisterColouring.Code.Instruction

set_option autoImplicit false

namespace RegisterColouring

/-- The names that are read, and the names that are written, each in order and with repetitions. -/
structure Effect where
  gen : List Name
  kill : List Name
  deriving DecidableEq, Repr

/-- **The effect of an instruction.** -/
def Instruction.effect : Instruction → Effect
  | assign target source =>
    if target.isMemory then ⟨source.names ++ target.names, []⟩
    else ⟨source.names, target.names⟩
  | stackArgument target _ => ⟨[], target.names⟩
  | arith _ target source => ⟨source.names ++ target.names, target.names⟩
  | shift _ target amount => ⟨amount.names ++ target.names, target.names⟩
  | memoryArith _ target source =>
    ⟨target.names ++ source.names, if target.isMemory then [] else target.names⟩
  | compare target _ left right => ⟨left.names ++ right.names, target.names⟩
  | jumpIf _ left right _ => ⟨left.names ++ right.names, []⟩
  | label _ => ⟨[], []⟩
  | goto _ => ⟨[], []⟩
  | ret => ⟨Register.result :: Register.calleeSaved, []⟩
  | call callee arguments =>
    ⟨Register.arguments arguments ++ callee.operands.flatMap Item.names, Register.callerSaved⟩
  | step target _ => ⟨target.names, target.names⟩
  | address target base index _ => ⟨base.names ++ index.names, target.names⟩

/-- The names an instruction reads. -/
def Instruction.gen (instruction : Instruction) : List Name := instruction.effect.gen

/-- The names an instruction overwrites. -/
def Instruction.kill (instruction : Instruction) : List Name := instruction.effect.kill

end RegisterColouring
