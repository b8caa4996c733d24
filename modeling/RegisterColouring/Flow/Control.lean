/-
**Control flow.**

A label marks a position of the code, and a jump goes to the position of its label.  From any other
instruction that does not end the function, control goes on to the next one, if there is one.

Main definitions:

* `RegisterColouring.AnalysisError` — why a function cannot be analysed;
* `RegisterColouring.Function.labels` — the positions of the labels;
* `RegisterColouring.Function.successors` — where control can go from each instruction.
-/

import RegisterColouring.Code.Function

set_option autoImplicit false

namespace RegisterColouring

/-- Why a function cannot be analysed: a label is defined twice, a jump goes to an undefined label, or
an instruction uses a register that values cannot be assigned to.  The last case says that the
analysis itself did not come to rest. -/
inductive AnalysisError where
  | duplicateLabel (function : String) (index : Nat) (label : String)
  | unknownLabel (function : String) (index : Nat) (label : String)
  | unknownRegister (function : String) (index : Nat) (register : String)
  | unsettled (function : String) (passes : Nat)
  deriving DecidableEq, Repr

/-- An instruction by its function and its position. -/
def instructionPlace (function : String) (index : Nat) : String :=
  (Item.function function).render ++ "[" ++ Numeral.natural index ++ "]: "

/-- The text of an analysis error. -/
def AnalysisError.message : AnalysisError → String
  | duplicateLabel function index label =>
    instructionPlace function index ++ "label " ++ (Item.label label).render ++ " already defined"
  | unknownLabel function index label =>
    instructionPlace function index ++ "unknown label " ++ (Item.label label).render
  | unknownRegister function index register =>
    instructionPlace function index ++ "unknown register " ++ register
  | unsettled function passes =>
    (Item.function function).render ++ ": liveness failed to converge after " ++
      Numeral.natural passes ++ " passes"

namespace Function

/-- The positions of the labels in code that starts at a given position, after the ones that are
known. -/
def labelsFrom (name : String) (known : List (String × Nat)) (index : Nat) :
    List Instruction → Except AnalysisError (List (String × Nat))
  | [] => .ok known
  | .label label :: code =>
    if (known.lookup label).isSome then .error (.duplicateLabel name index label)
    else labelsFrom name (known ++ [(label, index)]) (index + 1) code
  | _ :: code => labelsFrom name known (index + 1) code

/-- **The positions of the labels of a function**, in order. -/
def labels (function : Function) : Except AnalysisError (List (String × Nat)) :=
  labelsFrom function.name [] 0 function.code

/-- The position after `index` in code of a given length, if there is one. -/
def next (length index : Nat) : List Nat := if index + 1 < length then [index + 1] else []

/-- Where control can go from an instruction at a given position; the label of a jump to nowhere. -/
def successorsOf (labels : List (String × Nat)) (length index : Nat) :
    Instruction → Except String (List Nat)
  | .goto target =>
    match labels.lookup target with
    | some position => .ok [position]
    | none => .error target
  | .jumpIf _ _ _ target =>
    match labels.lookup target with
    | some position => .ok (position :: next length index)
    | none => .error target
  | instruction => .ok (if instruction.isTerminal then [] else next length index)

/-- Where control can go from each instruction of the code from a position on. -/
def successorsFrom (name : String) (labels : List (String × Nat)) (length index : Nat) :
    List Instruction → Except AnalysisError (List (List Nat))
  | [] => .ok []
  | instruction :: code =>
    match successorsOf labels length index instruction with
    | .error label => .error (.unknownLabel name index label)
    | .ok here =>
      match successorsFrom name labels length (index + 1) code with
      | .ok rest => .ok (here :: rest)
      | .error e => .error e

/-- **Where control can go from each instruction of a function.** -/
def successors (function : Function) (labels : List (String × Nat)) :
    Except AnalysisError (List (List Nat)) :=
  successorsFrom function.name labels function.code.length 0 function.code

end Function

end RegisterColouring
