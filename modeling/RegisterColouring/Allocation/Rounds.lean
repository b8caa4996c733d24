/-
**Rounds of allocation.**

In a round the function is analysed and its conflict graph coloured.  If every variable gets a
register, the function is done; otherwise the variables that got none are spilled, and the next round
works on the spilled function.  Temporaries are never spilled, so every round but the last takes at
least one variable of the function for good: a function with `n` variables needs at most `n + 1`
rounds.

Main definitions:

* `RegisterColouring.Allocation.attempt` — analysis and colouring of one round;
* `RegisterColouring.Function.allocate` — **the allocation of a function**;
* `RegisterColouring.Program.allocate` — **the allocation of a program**, one function after the
  other with one supply of names.
-/

import RegisterColouring.Allocation.Basic
import RegisterColouring.Colouring.Selection
import RegisterColouring.Conflict.Interference
import RegisterColouring.Spill.Basic

set_option autoImplicit false

namespace RegisterColouring

/-- An allocated function: its code with all spilling done, the register of every variable in it, how
many rounds it took, and the variables that were spilled, in order. -/
structure FunctionAllocation where
  function : Function
  registers : List (Name × String)
  rounds : Nat
  spilled : List Name
  deriving DecidableEq, Repr

namespace Allocation

/-- What has been done after some rounds. -/
structure Progress where
  function : Function
  names : NameSupply
  unspillable : List Name
  spilled : List Name
  rounds : Nat
  log : List Event
  deriving DecidableEq, Repr

/-- The result of allocating a function, with the names left and the log. -/
structure Run where
  result : Except AllocationError FunctionAllocation
  names : NameSupply
  log : List Event

/-- What one round finds out about a function. -/
structure Attempt where
  nodes : Nat
  passes : Nat
  assignment : Assignment
  deriving DecidableEq, Repr

/-- **The analysis and colouring of one round.** -/
def attempt (heuristic : Heuristic) (round : Nat) (function : Function) (unspillable : List Name) :
    Except AllocationError Attempt :=
  match Liveness.analyse function with
  | .error e => .error (.analysis round e)
  | .ok liveness =>
    let graph := Graph.ofLiveness liveness
    match graph.colour function.name ⟨heuristic, unspillable⟩ with
    | .error e => .error (.colouring round e)
    | .ok colouring => .ok ⟨graph.size, liveness.passes, colouring.assignment⟩

/-- What has been done after a round that ends in spilling. -/
def Progress.spill (progress : Progress) (spills : List Name) (event : Event) : Progress :=
  let result := progress.function.spill spills progress.names
  { function := result.function
    names := result.names
    unspillable := progress.unspillable ++ result.temporaries
    spilled := progress.spilled ++ spills
    rounds := progress.rounds + 1
    log := progress.log ++ [event] }

/-- The remaining rounds, at most `budget` of them. -/
def runFrom (config : AllocationConfig) : (budget : Nat) → Progress → Run
  | 0, progress =>
    ⟨.error (.roundLimit progress.function.name config.maxRounds), progress.names, progress.log⟩
  | budget + 1, progress =>
    let round := progress.rounds + 1
    match attempt config.heuristic round progress.function progress.unspillable with
    | .error e => ⟨.error e, progress.names, progress.log⟩
    | .ok attempt =>
      let name := progress.function.name
      match attempt.assignment with
      | .registers assigned =>
        ⟨.ok ⟨progress.function, assigned, round, progress.spilled⟩, progress.names,
          progress.log ++ [.round name round attempt.nodes attempt.passes [], .done name round]⟩
      | .spills spills =>
        runFrom config budget
          (progress.spill spills (.round name round attempt.nodes attempt.passes spills))

/-- How many rounds there can be: the configured limit, or as many as a function can need. -/
def budget (config : AllocationConfig) (function : Function) : Nat :=
  if config.maxRounds = 0 then function.vars.length + 1 else config.maxRounds

end Allocation

/-- **The allocation of a function** with a supply of names for its temporaries. -/
def Function.allocate (function : Function) (names : NameSupply) (config : AllocationConfig) :
    Allocation.Run :=
  Allocation.runFrom config (Allocation.budget config function) ⟨function, names, [], [], 0, []⟩

/-- An allocated program: its functions in order, each under its name. -/
structure ProgramAllocation where
  entry : String
  functions : List FunctionAllocation
  deriving DecidableEq, Repr

/-- The program with all spilling done. -/
def ProgramAllocation.program (allocation : ProgramAllocation) : Program :=
  ⟨allocation.entry, allocation.functions.map FunctionAllocation.function⟩

namespace Allocation

/-- The result of allocating several functions, with the log. -/
structure ProgramRun (α : Type) where
  result : Except ProgramError α
  log : List Event

/-- The allocation of functions one after the other, until one fails. -/
def runAll (config : AllocationConfig) (names : NameSupply) (log : List Event) :
    List Function → ProgramRun (List FunctionAllocation)
  | [] => ⟨.ok [], log⟩
  | function :: functions =>
    let run := function.allocate names config
    match run.result with
    | .error cause => ⟨.error ⟨function.name, cause⟩, log ++ run.log⟩
    | .ok allocation =>
      let rest := runAll config run.names (log ++ run.log) functions
      match rest.result with
      | .error e => ⟨.error e, rest.log⟩
      | .ok allocations => ⟨.ok (allocation :: allocations), rest.log⟩

end Allocation

/-- **The allocation of a program.**  Temporaries avoid all variables of the program. -/
def Program.allocate (program : Program) (config : AllocationConfig) :
    Allocation.ProgramRun ProgramAllocation :=
  let names := NameSupply.ofTaken config.stem program.vars
  let run := Allocation.runAll config names [] program.functions
  match run.result with
  | .error e => ⟨.error e, run.log⟩
  | .ok functions => ⟨.ok ⟨program.entry, functions⟩, run.log⟩

end RegisterColouring
