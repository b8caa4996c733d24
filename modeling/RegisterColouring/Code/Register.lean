/-
**Registers.**

The machine has fifteen general purpose registers, which values can be assigned to, and the stack
pointer, which addresses the frame and is never assigned.  The calling convention divides the general
purpose registers into those a call may overwrite and those it keeps.

Main definitions:

* `RegisterColouring.Register.generalPurpose` — the registers in the order in which they are given
  out;
* `RegisterColouring.Register.callerSaved`, `RegisterColouring.Register.calleeSaved`,
  `RegisterColouring.Register.arguments` — the calling convention.
-/

set_option autoImplicit false

namespace RegisterColouring

namespace Register

/-- The stack pointer. -/
def stackPointer : String := "rsp"

/-- The only register that can hold a shift amount. -/
def shiftAmount : String := "rcx"

/-- The register that holds a function's result. -/
def result : String := "rax"

/-- **The general purpose registers**, in the order in which they are given out. -/
def generalPurpose : List String :=
  ["rdi", "rsi", "rdx", "rcx", "r8", "r9", "rax", "r10", "r11", "r12", "r13", "r14", "r15", "rbp",
    "rbx"]

/-- How many general purpose registers there are. -/
def count : Nat := generalPurpose.length

/-- The registers that hold the first arguments of a call. -/
def argumentOrder : List String := ["rdi", "rsi", "rdx", "rcx", "r8", "r9"]

/-- The registers that a call may overwrite. -/
def callerSaved : List String := ["r10", "r11", "r8", "r9", "rax", "rcx", "rdi", "rdx", "rsi"]

/-- The registers that a function hands back as it found them. -/
def calleeSaved : List String := ["r12", "r13", "r14", "r15", "rbp", "rbx"]

/-- The registers that hold arguments in a call with `n` of them. -/
def arguments (n : Int64) : List String := argumentOrder.take n.toInt.toNat

/-- A register that values can be assigned to. -/
def isGeneralPurpose (name : String) : Bool := generalPurpose.contains name

/-- The name of a register. -/
def isRegister (name : String) : Bool := name == stackPointer || isGeneralPurpose name

@[simp] theorem count_eq : count = 15 := rfl

/-- Every general purpose register is on exactly one side of the calling convention. -/
theorem callerSaved_append_calleeSaved_perm :
    (callerSaved ++ calleeSaved).Perm generalPurpose := by decide

end Register

end RegisterColouring
