/-
**Liveness.**

A name is live at a point of a function if its value there may still be read before it is overwritten.
What is live before an instruction follows from what is live after it, and what is live after it from
what is live before its successors.  Starting from nothing, these equations are applied to one
instruction after the other, from the last to the first, until a whole pass changes nothing.

Main definitions:

* `RegisterColouring.Point` — what the equations need to know of an instruction;
* `RegisterColouring.Live` — the names live before and after an instruction;
* `RegisterColouring.Liveness.sweep` — one pass over the code;
* `RegisterColouring.Liveness.settle` — passes until nothing changes;
* `RegisterColouring.Liveness.analyse` — the liveness of a function, or why there is none.
-/

import RegisterColouring.Code.Effect
import RegisterColouring.Flow.Control
import RegisterColouring.Flow.Vocabulary

set_option autoImplicit false

namespace RegisterColouring

/-- What liveness needs to know of an instruction: where control can go, and which names it reads and
writes. -/
structure Point where
  successors : List Nat
  gen : IndexSet
  kill : IndexSet
  deriving DecidableEq, Repr

/-- The names that are live before and after an instruction. -/
structure Live where
  before : IndexSet
  after : IndexSet
  deriving DecidableEq, Repr, Inhabited

/-- The liveness of a function: the facts it rests on, the live names of every instruction, and how
many passes it took to find them. -/
structure Liveness where
  function : Function
  vocabulary : Vocabulary
  labels : List (String × Nat)
  points : List Point
  live : List Live
  passes : Nat
  deriving DecidableEq, Repr

namespace Liveness

/-! ### The equations -/

/-- The names live before the instruction at a position. -/
def before (live : List Live) (i : Nat) : IndexSet := (live[i]?.map Live.before).getD ∅

/-- The names live after an instruction, given what is live before its successors. -/
def afterOf (live : List Live) (point : Point) : IndexSet :=
  point.successors.foldl (fun set i => set ∪ before live i) ∅

/-- **The equations of liveness** for one instruction. -/
def transfer (live : List Live) (point : Point) : Live :=
  let after := afterOf live point
  ⟨(after \ point.kill) ∪ point.gen, after⟩

/-- The equations applied to the instruction at a position. -/
def update (points : List Point) (live : List Live) (i : Nat) : List Live :=
  match points[i]? with
  | some point => live.set i (transfer live point)
  | none => live

/-- One pass over the first `n` instructions, from the last of them to the first. -/
def sweepFrom (points : List Point) : Nat → List Live → List Live
  | 0, live => live
  | n + 1, live => sweepFrom points n (update points live n)

/-- **One pass over all instructions.** -/
def sweep (points : List Point) (live : List Live) : List Live :=
  sweepFrom points points.length live

/-- **Passes until one changes nothing**, at most `bound` of them, after `passes` earlier ones. -/
def settle (points : List Point) : (bound passes : Nat) → List Live → Option (List Live × Nat)
  | 0, _, _ => none
  | bound + 1, passes, live =>
    let live' := sweep points live
    if live' = live then some (live, passes + 1) else settle points bound (passes + 1) live'

/-! ### The analysis -/

/-- The points of the code from a position on, given where control can go from each instruction. -/
def pointsFrom (name : String) (vocabulary : Vocabulary) (index : Nat) :
    List Instruction → List (List Nat) → Except AnalysisError (List Point)
  | instruction :: code, successors :: rest =>
    match vocabulary.set instruction.gen, vocabulary.set instruction.kill with
    | .ok gen, .ok kill =>
      match pointsFrom name vocabulary (index + 1) code rest with
      | .ok points => .ok (⟨successors, gen, kill⟩ :: points)
      | .error e => .error e
    | .error register, _ => .error (.unknownRegister name index register)
    | _, .error register => .error (.unknownRegister name index register)
  | _, _ => .ok []

/-- How many passes are always enough: each but the last makes one of the sets larger. -/
def passBound (length names : Nat) : Nat := 2 * length * names + 2

/-- **The liveness of a function**, or why there is none. -/
def analyse (function : Function) : Except AnalysisError Liveness :=
  let vocabulary := Vocabulary.ofFunction function
  let bound := passBound function.code.length vocabulary.size
  match function.labels with
  | .error e => .error e
  | .ok labels =>
    match function.successors labels with
    | .error e => .error e
    | .ok successors =>
      match pointsFrom function.name vocabulary 0 function.code successors with
      | .error e => .error e
      | .ok points =>
        match settle points bound 0 (points.map fun _ => ⟨∅, ∅⟩) with
        | none => .error (.unsettled function.name bound)
        | some (live, passes) => .ok ⟨function, vocabulary, labels, points, live, passes⟩

/-! ### Text -/

/-- A set of names in parentheses, on a line of its own. -/
def renderSet (names : List Name) : String := "(" ++ " ".intercalate names ++ ")\n"

/-- **The text of a liveness result**: the sets before, then the sets after every instruction. -/
def render (result : Liveness) : String :=
  let sets := fun (side : Live → IndexSet) =>
    String.join (result.live.map fun live => renderSet (result.vocabulary.sorted (side live)))
  "(\n(in\n" ++ sets Live.before ++ ")\n\n(out\n" ++ sets Live.after ++ ")\n\n)\n"

end Liveness

end RegisterColouring
