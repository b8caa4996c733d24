/-
**Functions and programs.**

A function has a name, an arity, a number of local cells in its frame, and its code.  The frame is
addressed from the stack pointer in cells of eight bytes; a function made from code alone gets the
smallest frame that holds every cell the code mentions.  A program is a list of functions and the
name of the one to start with.

Main definitions:

* `RegisterColouring.Function`, `RegisterColouring.Function.ofCode` — functions, and the one made from
  code alone;
* `RegisterColouring.Function.vars` — the variables in order of first occurrence;
* `RegisterColouring.Program` — programs;
* `RegisterColouring.Function.render`, `RegisterColouring.Program.render` — their text.
-/

import RegisterColouring.Code.Instruction

set_option autoImplicit false

namespace RegisterColouring

/-! ### Frames -/

/-- The least number of cells in a frame that holds the cell an item names: none unless the item is a
memory cell at a nonnegative offset from the stack pointer. -/
def Item.frameSize : Item → UInt64
  | memory (register name) offset =>
    if name = Register.stackPointer ∧ 0 ≤ offset then (offset / 8).toUInt64 + 1 else 0
  | _ => 0

/-- The least number of cells in a frame that holds every cell the code mentions. -/
def inferLocals (code : List Instruction) : UInt64 :=
  (code.flatMap Instruction.operands).foldl (fun locals item => max locals item.frameSize) 0

/-! ### Functions -/

/-- **A function.** -/
structure Function where
  name : String
  arity : Int64
  locals : UInt64
  code : List Instruction
  deriving DecidableEq, Repr

namespace Function

/-- The function made from code alone, with the smallest frame that holds its cells. -/
def ofCode (name : String) (arity : Int64) (code : List Instruction) : Function :=
  ⟨name, arity, inferLocals code, code⟩

/-- The variables of a function, without their sigil, in order of first occurrence. -/
def vars (function : Function) : List String :=
  (function.code.flatMap Instruction.vars).eraseDups

theorem mem_vars {function : Function} {v : String} :
    v ∈ function.vars ↔ ∃ instruction ∈ function.code, v ∈ instruction.vars := by
  rw [vars, List.mem_eraseDups, List.mem_flatMap]

/-- **The text of a function**: its name, its arity and its instructions, one to a line. -/
def render (function : Function) : String :=
  "(" ++ (Item.function function.name).render ++ "\n\t" ++
    (Item.number function.arity).render ++ "\n" ++
    String.join (function.code.map fun instruction => "\t" ++ instruction.render ++ "\n") ++ ")"

/-! ### Changes to the code -/

/-- The position that an integer denotes among `n` things, if it denotes one. -/
def position? (n : Nat) (i : Int) : Option Nat :=
  if 0 ≤ i ∧ i < n then some i.toNat else none

/-- One more instruction at the end. -/
def push (function : Function) (instruction : Instruction) : Function :=
  { function with code := function.code ++ [instruction] }

/-- Another instruction in place of the one at a position. -/
def replace? (function : Function) (i : Int) (instruction : Instruction) : Option Function :=
  (position? function.code.length i).map fun i =>
    { function with code := function.code.set i instruction }

/-- The code without the instruction at a position. -/
def delete? (function : Function) (i : Int) : Option Function :=
  (position? function.code.length i).map fun i =>
    { function with code := function.code.eraseIdx i }

/-- The same code with the smallest frame that holds its cells. -/
def reframe (function : Function) : Function :=
  ofCode function.name function.arity function.code

end Function

/-! ### Programs -/

/-- **A program.** -/
structure Program where
  entry : String
  functions : List Function
  deriving DecidableEq, Repr

namespace Program

/-- The first function with a given name. -/
def find? (program : Program) (name : String) : Option Function :=
  program.functions.find? (·.name == name)

/-- The variables of all functions, without their sigil, in order of first occurrence. -/
def vars (program : Program) : List String :=
  (program.functions.flatMap Function.vars).eraseDups

/-- **The text of a program**: the name of its entry and its functions. -/
def render (program : Program) : String :=
  "(" ++ (Item.function program.entry).render ++ "\n" ++
    String.join (program.functions.map fun function => function.render ++ "\n") ++ ")"

end Program

/-- A request to spill one variable of a function, with a stem for the names of temporaries. -/
structure SpillRequest where
  function : Function
  victim : String
  stem : String
  deriving DecidableEq, Repr

end RegisterColouring
