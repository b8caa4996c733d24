/-
**Choices and outcomes of colouring.**

Colouring gives a register to every variable of a conflict graph such that conflicting names get
different registers.  When some variables are left without one, they are candidates for spilling,
except those that cannot be spilled; if none of them can, colouring is impossible.

Main definitions:

* `RegisterColouring.Heuristic`, `RegisterColouring.ColouringOptions` — how to choose;
* `RegisterColouring.Colouring`, `RegisterColouring.ColouringError` — what comes out.
-/

import RegisterColouring.Code.Item

set_option autoImplicit false

namespace RegisterColouring

/-- Which of the variables with too many conflicts is set aside first: the one with the most, or the
one that occurs first. -/
inductive Heuristic where
  | highestDegree
  | firstSeen
  deriving DecidableEq, Repr

/-- How to choose variables to set aside, and which names cannot be spilled. -/
structure ColouringOptions where
  heuristic : Heuristic
  unspillable : List Name
  deriving DecidableEq, Repr

/-- The outcome of colouring: a register for every variable, or the variables to spill. -/
inductive Assignment where
  | registers (assigned : List (Name × String))
  | spills (names : List Name)
  deriving DecidableEq, Repr

/-- An outcome, and how many variables were set aside with too many conflicts on the way. -/
structure Colouring where
  assignment : Assignment
  optimistic : Nat
  deriving DecidableEq, Repr

namespace Colouring

/-- The registers of the variables, unless some are to be spilled. -/
def registers? (colouring : Colouring) : Option (List (Name × String)) :=
  match colouring.assignment with
  | .registers assigned => some assigned
  | .spills _ => none

/-- The variables to spill. -/
def spills (colouring : Colouring) : List Name :=
  match colouring.assignment with
  | .registers _ => []
  | .spills names => names

end Colouring

/-- Why there is no outcome: a variable with few conflicts found no register, which no graph causes;
or the variables without a register cannot be spilled. -/
inductive ColouringError where
  | stranded (function : String) (node : Name) (degree : Nat)
  | unsatisfiable (function : String) (nodes : List Name)
  deriving DecidableEq, Repr

/-- The text of a colouring error. -/
def ColouringError.message : ColouringError → String
  | stranded function node degree =>
    (Item.function function).render ++ ": " ++ node ++ " removed with degree " ++
      Numeral.natural degree ++ " but could not be coloured"
  | unsatisfiable function nodes =>
    (Item.function function).render ++ ": cannot colour unspillable variables " ++
      ", ".intercalate nodes

end RegisterColouring
