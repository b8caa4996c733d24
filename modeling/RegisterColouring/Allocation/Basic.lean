/-
**Rounds of allocation: configuration, errors and log.**

A function is allocated in rounds.  This module holds what surrounds the rounds: how they are
configured, how they can fail, and what they report on the way.

Main definitions:

* `RegisterColouring.AllocationConfig` — the configuration;
* `RegisterColouring.AllocationError`, `RegisterColouring.ProgramError` — the failures;
* `RegisterColouring.Event` — the entries of the log.
-/

import RegisterColouring.Colouring.Options
import RegisterColouring.Flow.Control

set_option autoImplicit false

namespace RegisterColouring

/-- How to allocate: the most rounds for a function, where zero means no limit, the stem for the names
of temporaries, and how to choose what to spill. -/
structure AllocationConfig where
  maxRounds : Nat
  stem : String
  heuristic : Heuristic
  deriving DecidableEq, Repr

/-- The stem for temporaries if none is given. -/
def AllocationConfig.defaultStem : String := "%S"

/-- Why a function cannot be allocated: one of its rounds failed, or there were too many. -/
inductive AllocationError where
  | analysis (round : Nat) (cause : AnalysisError)
  | colouring (round : Nat) (cause : ColouringError)
  | roundLimit (function : String) (rounds : Nat)
  deriving DecidableEq, Repr

/-- The text of an allocation error. -/
def AllocationError.message : AllocationError → String
  | analysis round cause => "round " ++ Numeral.natural round ++ ": " ++ cause.message
  | colouring round cause => "round " ++ Numeral.natural round ++ ": " ++ cause.message
  | roundLimit function rounds =>
    (Item.function function).render ++ ": no colouring found within " ++ Numeral.natural rounds ++
      " round(s)"

/-- Why a program cannot be allocated: the first of its functions that cannot, and why. -/
structure ProgramError where
  function : String
  cause : AllocationError
  deriving DecidableEq, Repr

/-- The text of a program error. -/
def ProgramError.message (error : ProgramError) : String :=
  "allocating " ++ (Item.function error.function).render ++ ": " ++ error.cause.message

/-- Names in brackets, with a space between neighbours. -/
def bracketed (names : List Name) : String := "[" ++ " ".intercalate names ++ "]"

/-- What allocation reports: a round that has come to an outcome, and a function that is done. -/
inductive Event where
  | round (function : String) (number nodes passes : Nat) (spills : List Name)
  | done (function : String) (rounds : Nat)
  deriving DecidableEq, Repr

/-- The text of an event.  Time and memory are not recorded: `#` stands in their place. -/
def Event.message : Event → String
  | round function number nodes passes spills =>
    (Item.function function).render ++ " round " ++ Numeral.natural number ++ ": " ++
      Numeral.natural nodes ++ " nodes, " ++ Numeral.natural passes ++ " passes, spilling " ++
      bracketed spills
  | done function rounds =>
    "Allocating " ++ (Item.function function).render ++ " took #s over " ++
      Numeral.natural rounds ++ " step(s) using # Kb (# GC events)"

end RegisterColouring
