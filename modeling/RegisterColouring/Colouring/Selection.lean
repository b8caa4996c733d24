/-
**The selection of registers.**

The removed variables come back in the reverse order of their removal, and each gets the first
register that none of its neighbours has.  A variable that finds none stays without a register, and
the variables after it are coloured as if it were not there.

Main definitions:

* `RegisterColouring.Graph.freeColour?` — the first register that is free at a node;
* `RegisterColouring.Graph.select` — registers for the removed variables;
* `RegisterColouring.Graph.colour` — **the colouring of a conflict graph**.
-/

import RegisterColouring.Colouring.Elimination

set_option autoImplicit false

namespace RegisterColouring

/-- What selection has come to: the register of every node that has one, as its position in the order
in which registers are given out, and the variables that found none, latest first. -/
structure Selection where
  colours : List (Option Nat)
  failed : List Nat
  deriving DecidableEq, Repr

namespace Graph

/-- The colour of a node. -/
def colourOf (colours : List (Option Nat)) (node : Nat) : Option Nat := (colours[node]?).join

/-- The colours that the neighbours of a node have. -/
def usedColours (graph : Graph) (colours : List (Option Nat)) (node : Nat) : List Nat :=
  (graph.row node).toList.filterMap (colourOf colours)

/-- **The first colour that no neighbour of a node has.** -/
def freeColour? (graph : Graph) (colours : List (Option Nat)) (node : Nat) : Option Nat :=
  (List.range Register.count).find? fun colour => !(graph.usedColours colours node).contains colour

/-- The colours before any variable has one: a register has its own. -/
def initialColours (graph : Graph) : List (Option Nat) :=
  graph.vocabulary.names.map fun name => Register.generalPurpose.idxOf? name

/-- Registers for removed variables, latest removal first, after what has been selected. -/
def selectFrom (graph : Graph) (function : String) :
    Selection → List Removal → Except ColouringError Selection
  | selection, [] => .ok selection
  | selection, removal :: removals =>
    match graph.freeColour? selection.colours removal.node with
    | some colour =>
      graph.selectFrom function
        { selection with colours := selection.colours.set removal.node (some colour) } removals
    | none =>
      if removal.isOptimistic then
        graph.selectFrom function
          { selection with failed := removal.node :: selection.failed } removals
      else
        .error (.stranded function (graph.vocabulary.name removal.node) removal.degree)

/-- **Registers for removed variables**, given in the order of their removal. -/
def select (graph : Graph) (function : String) (removals : List Removal) :
    Except ColouringError Selection :=
  graph.selectFrom function ⟨graph.initialColours, []⟩ removals.reverse

/-- The register of every variable. -/
def registersOf (graph : Graph) (colours : List (Option Nat)) : List (Name × String) :=
  graph.variableNodes.map fun node =>
    (graph.vocabulary.name node,
      ((colourOf colours node).bind (Register.generalPurpose[·]?)).getD "")

/-- What becomes of the variables that found no register. -/
def outcome (function : String) (options : ColouringOptions) (optimistic : Nat)
    (failed : List Name) : Except ColouringError Colouring :=
  let spills := failed.filter fun name => !options.unspillable.contains name
  if spills.isEmpty then .error (.unsatisfiable function (alphabetical failed))
  else .ok ⟨.spills (alphabetical spills), optimistic⟩

/-- **The colouring of a conflict graph** for a function of the given name. -/
def colour (graph : Graph) (function : String) (options : ColouringOptions) :
    Except ColouringError Colouring :=
  let removals := graph.eliminate options
  let optimistic := (removals.filter Removal.isOptimistic).length
  match graph.select function removals with
  | .error e => .error e
  | .ok selection =>
    if selection.failed.isEmpty then
      .ok ⟨.registers (graph.registersOf selection.colours), optimistic⟩
    else
      outcome function options optimistic (selection.failed.map graph.vocabulary.name)

end Graph

end RegisterColouring
