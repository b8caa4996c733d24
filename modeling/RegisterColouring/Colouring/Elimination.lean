/-
**The order of elimination.**

The variables of a conflict graph are removed one after the other.  While there is a variable with
fewer neighbours left than there are registers, one with the fewest is removed: whatever registers
its neighbours get, one is left for it.  Otherwise a variable is removed in the hope that its
neighbours will share registers; variables that can be spilled go first.

Main definitions:

* `RegisterColouring.choose` — the first of the best elements of a list;
* `RegisterColouring.Removal` — a removed variable, with how it was removed;
* `RegisterColouring.Graph.eliminate` — the variables in the order of their removal.
-/

import RegisterColouring.Colouring.Options
import RegisterColouring.Conflict.Graph

set_option autoImplicit false

namespace RegisterColouring

/-- The best of an element and those of a list, where a later one is taken only if it is better than
the best so far. -/
def choose {α : Type} (better : α → α → Bool) : α → List α → α
  | best, [] => best
  | best, a :: rest => choose better (if better a best then a else best) rest

/-- The chosen element is one of those given. -/
theorem choose_mem {α : Type} (better : α → α → Bool) (best : α) (list : List α) :
    choose better best list ∈ best :: list := by
  induction list generalizing best with
  | nil => exact List.mem_cons_self ..
  | cons a rest ih =>
      have h := ih (if better a best then a else best)
      rw [choose]
      rcases List.mem_cons.1 h with h | h
      · rw [h]
        split <;> simp
      · exact List.mem_cons_of_mem _ (List.mem_cons_of_mem _ h)

/-- A variable that has been removed, with the number of its neighbours at that time. -/
structure Removal where
  node : Nat
  degree : Nat
  deriving DecidableEq, Repr

/-- A variable was removed with at least as many neighbours as there are registers. -/
def Removal.isOptimistic (removal : Removal) : Bool := Register.count ≤ removal.degree

namespace Graph

/-- How many neighbours of a node are among the nodes that are present. -/
def degreeIn (graph : Graph) (present : IndexSet) (node : Nat) : Nat :=
  (graph.row node ∩ present).size

/-- A node's name comes before that of another. -/
def precedes (graph : Graph) (i j : Nat) : Bool :=
  graph.vocabulary.name i < graph.vocabulary.name j

/-- A node is easier to colour than another: it has fewer neighbours, or as many and an earlier
name. -/
def easier (graph : Graph) (present : IndexSet) (i j : Nat) : Bool :=
  let di := graph.degreeIn present i
  let dj := graph.degreeIn present j
  di < dj || (di == dj && graph.precedes i j)

/-- Whether a node can be spilled. -/
def isSpillable (graph : Graph) (options : ColouringOptions) (node : Nat) : Bool :=
  !options.unspillable.contains (graph.vocabulary.name node)

/-- How much the heuristic favours setting a node aside. -/
def rank (graph : Graph) (options : ColouringOptions) (present : IndexSet) (node : Nat) : Nat :=
  match options.heuristic with
  | .highestDegree => graph.degreeIn present node
  | .firstSeen => graph.size - node

/-- A node is a better one to set aside than another: it alone can be spilled, or the heuristic
favours it, or there is nothing else between them and its name comes first. -/
def worthier (graph : Graph) (options : ColouringOptions) (present : IndexSet) (i j : Nat) : Bool :=
  let si := graph.isSpillable options i
  let sj := graph.isSpillable options j
  let ri := graph.rank options present i
  let rj := graph.rank options present j
  if si != sj then si else rj < ri || (ri == rj && graph.precedes i j)

/-- The variable to remove next. -/
def nextRemoval (graph : Graph) (options : ColouringOptions) (present : IndexSet) (first : Nat)
    (rest : List Nat) : Removal :=
  let easiest := choose (graph.easier present) first rest
  let node :=
    if graph.degreeIn present easiest < Register.count then easiest
    else choose (graph.worthier options present) first rest
  ⟨node, graph.degreeIn present node⟩

/-- The removals of the remaining variables, at most `steps` of them, in order. -/
def eliminateFrom (graph : Graph) (options : ColouringOptions) :
    Nat → IndexSet → List Nat → List Removal
  | 0, _, _ => []
  | _, _, [] => []
  | steps + 1, present, first :: rest =>
    let removal := graph.nextRemoval options present first rest
    removal :: eliminateFrom graph options steps (present.erase removal.node)
      ((first :: rest).filter (· != removal.node))

/-- The nodes that are variables. -/
def variableNodes (graph : Graph) : List Nat :=
  (List.range graph.size).filter fun i => !graph.vocabulary.isRegister i

/-- **The variables in the order of their removal.** -/
def eliminate (graph : Graph) (options : ColouringOptions) : List Removal :=
  graph.eliminateFrom options graph.variableNodes.length (IndexSet.ofList (List.range graph.size))
    graph.variableNodes

end Graph

end RegisterColouring
