/-
**The conflicts of a function.**

Two names conflict if they are live at the same point, or if one is overwritten where the other is
live afterwards.  All general purpose registers conflict with each other.  A name that a shift takes
its amount from conflicts with every register that cannot hold an amount.

Main definitions:

* `RegisterColouring.Graph.ofLiveness` — the conflict graph of a function.
-/

import RegisterColouring.Conflict.Graph
import RegisterColouring.Flow.Liveness

set_option autoImplicit false

namespace RegisterColouring

/-- The name that a shift takes its amount from. -/
def Instruction.shiftName? : Instruction → Option Name
  | shift _ _ amount => amount.name?
  | _ => none

/-- The numbers of the general purpose registers that cannot hold a shift amount. -/
def Vocabulary.unshiftable (vocabulary : Vocabulary) : IndexSet :=
  IndexSet.ofList (vocabulary.indices.filter fun i =>
    vocabulary.isRegister i && vocabulary.name i != Register.shiftAmount)

namespace Graph

/-- The conflicts of a shift. -/
def addShift (graph : Graph) (instruction : Instruction) : Graph :=
  match instruction.shiftName?.bind graph.vocabulary.index? with
  | some amount => graph.addBiclique (IndexSet.singleton amount) graph.vocabulary.unshiftable
  | none => graph

/-- The conflicts at one instruction. -/
def addPoint (graph : Graph) (instruction : Instruction) (point : Point) (live : Live) : Graph :=
  (((graph.addClique live.before).addClique live.after).addBiclique
    point.kill live.after).addShift instruction

/-- **The conflict graph of a function**, from its liveness. -/
def ofLiveness (result : Liveness) : Graph :=
  (result.function.code.zip (result.points.zip result.live)).foldl
    (fun graph (instruction, point, live) => graph.addPoint instruction point live)
    (edgeless result.vocabulary).addRegisters

end Graph

end RegisterColouring
