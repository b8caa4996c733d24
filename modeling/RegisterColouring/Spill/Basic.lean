/-
**Spilling.**

A spilled variable lives in a cell of the frame.  Every instruction that mentions it works on a
temporary of its own instead: the temporary is loaded from the cell before the instruction if the
instruction reads the variable, and stored into the cell afterwards if it writes it.  Each variable
gets one new cell, at its first mention.

Main definitions:

* `RegisterColouring.Spill.Replacement` — a variable with its temporary and its cell in one
  instruction;
* `RegisterColouring.Spill.expand` — the code that takes the place of an instruction;
* `RegisterColouring.Function.spill` — **a function with some variables spilled**.
-/

import RegisterColouring.Code.Effect
import RegisterColouring.Code.Function
import RegisterColouring.Code.Renaming
import RegisterColouring.Spill.NameSupply

set_option autoImplicit false

namespace RegisterColouring

namespace Spill

/-- What spilling keeps track of: the size of the frame, the offsets of the cells that have been given
to variables, the supply of names, and the temporaries so far, in order. -/
structure State where
  locals : UInt64
  slots : List (Name × Int64)
  names : NameSupply
  temporaries : List Name
  deriving DecidableEq, Repr

/-- A spilled variable in one instruction: the temporary that stands for it, and the offset of its
cell. -/
structure Replacement where
  victim : Name
  temporary : String
  offset : Int64
  deriving DecidableEq, Repr

/-- The offset of a variable's cell; a variable without one gets a new cell at the end of the
frame. -/
def State.slot (state : State) (victim : Name) : Int64 × State :=
  match state.slots.lookup victim with
  | some offset => (offset, state)
  | none =>
    let offset := (8 * state.locals).toInt64
    (offset, { state with locals := state.locals + 1, slots := state.slots ++ [(victim, offset)] })

/-- A temporary for a variable in one instruction. -/
def State.replace (state : State) (victim : Name) : Replacement × State :=
  let (offset, state) := state.slot victim
  let (temporary, names) := state.names.fresh
  (⟨victim, temporary, offset⟩,
    { state with names, temporaries := state.temporaries ++ [Name.ofVariable temporary] })

/-- Temporaries for several variables in one instruction. -/
def State.replaceAll (state : State) : List Name → List Replacement × State
  | [] => ([], state)
  | victim :: victims =>
    let (replacement, state) := state.replace victim
    let (rest, state) := state.replaceAll victims
    (replacement :: rest, state)

/-- The variables of an instruction that are to be spilled, in order of first occurrence. -/
def victims (targets : List Name) (instruction : Instruction) : List Name :=
  ((instruction.vars.map Name.ofVariable).filter targets.contains).eraseDups

/-- The variable that stands for a variable after some replacements. -/
def image (replacements : List Replacement) (v : String) : String :=
  match replacements.find? (·.victim == Name.ofVariable v) with
  | some replacement => replacement.temporary
  | none => v

/-- The load of a temporary from its cell. -/
def Replacement.load (replacement : Replacement) : Instruction :=
  .assign (.var replacement.temporary) (Item.slot replacement.offset)

/-- The store of a temporary into its cell. -/
def Replacement.store (replacement : Replacement) : Instruction :=
  .assign (Item.slot replacement.offset) (.var replacement.temporary)

/-- **The code that takes the place of an instruction**: loads of what it reads, the instruction on
temporaries, and stores of what it writes. -/
def expand (replacements : List Replacement) (instruction : Instruction) : List Instruction :=
  (replacements.filter fun r => instruction.gen.contains r.victim).map Replacement.load ++
    instruction.rename (image replacements) ::
    (replacements.filter fun r => instruction.kill.contains r.victim).map Replacement.store

/-- Code with some variables spilled. -/
def code (targets : List Name) : State → List Instruction → List Instruction × State
  | state, [] => ([], state)
  | state, instruction :: rest =>
    let (replacements, state) := state.replaceAll (victims targets instruction)
    let (tail, state) := code targets state rest
    (expand replacements instruction ++ tail, state)

/-- The outcome of spilling: the new function, the temporaries in order, and the names left. -/
structure Result where
  function : Function
  temporaries : List Name
  names : NameSupply
  deriving DecidableEq, Repr

end Spill

/-- **A function with some variables spilled.** -/
def Function.spill (function : Function) (targets : List Name) (names : NameSupply) :
    Spill.Result :=
  let (code, state) := Spill.code targets ⟨function.locals, [], names, []⟩ function.code
  ⟨{ function with locals := state.locals, code }, state.temporaries, state.names⟩

/-- The outcome of a spill request; the temporaries avoid the function's variables. -/
def SpillRequest.run (request : SpillRequest) : Spill.Result :=
  request.function.spill [Name.ofVariable request.victim]
    (NameSupply.ofTaken (Name.ofVariable request.stem) request.function.vars)

end RegisterColouring
