/-
**Conflict graphs.**

Two names conflict if they must not share a register.  A conflict graph has the numbers of a
vocabulary as its nodes and, for each node, the set of the nodes it conflicts with.  Edges are added
for whole sets at once: a clique joins all members of a set, a biclique joins the members of one set
to those of another.  No node conflicts with itself, and conflicts go both ways.

Main definitions:

* `RegisterColouring.Graph`, `RegisterColouring.Graph.edgeless` — conflict graphs;
* `RegisterColouring.Graph.addClique`, `RegisterColouring.Graph.addBiclique`,
  `RegisterColouring.Graph.addEdge` — more conflicts;
* `RegisterColouring.Graph.neighbours`, `RegisterColouring.Graph.degree`,
  `RegisterColouring.Graph.interferes` — conflicts by name;
* `RegisterColouring.Graph.render` — the text of a graph.
-/

import RegisterColouring.Flow.Vocabulary

set_option autoImplicit false

namespace RegisterColouring

/-- A conflict graph: the neighbours of every node. -/
structure Graph where
  vocabulary : Vocabulary
  rows : List IndexSet
  deriving DecidableEq, Repr

namespace Graph

/-- The graph without conflicts. -/
def edgeless (vocabulary : Vocabulary) : Graph :=
  ⟨vocabulary, List.replicate vocabulary.size ∅⟩

/-- How many nodes there are. -/
def size (graph : Graph) : Nat := graph.rows.length

/-- The neighbours of a node. -/
def row (graph : Graph) (node : Nat) : IndexSet := graph.rows[node]?.getD ∅

/-- More neighbours for each node, never the node itself. -/
def extend (graph : Graph) (more : Nat → IndexSet) : Graph :=
  { graph with rows := graph.rows.mapIdx fun node row => (row ∪ more node).erase node }

/-- **Conflicts among all members of a set.** -/
def addClique (graph : Graph) (nodes : IndexSet) : Graph :=
  graph.extend fun node => if node ∈ nodes then nodes else ∅

/-- **Conflicts of the members of one set with those of another.** -/
def addBiclique (graph : Graph) (left right : IndexSet) : Graph :=
  graph.extend fun node =>
    (if node ∈ left then right else ∅) ∪ (if node ∈ right then left else ∅)

/-- A conflict of two nodes, unless they are the same. -/
def addEdge (graph : Graph) (i j : Nat) : Graph :=
  graph.addBiclique (IndexSet.singleton i) (IndexSet.singleton j)

/-- Conflicts among all general purpose registers. -/
def addRegisters (graph : Graph) : Graph := graph.addClique graph.vocabulary.registers

@[simp] theorem vocabulary_extend (graph : Graph) (more : Nat → IndexSet) :
    (graph.extend more).vocabulary = graph.vocabulary := rfl

@[simp] theorem size_extend (graph : Graph) (more : Nat → IndexSet) :
    (graph.extend more).size = graph.size := by
  simp [extend, size]

@[simp] theorem size_edgeless (vocabulary : Vocabulary) :
    (edgeless vocabulary).size = vocabulary.size := by
  simp [edgeless, size]

/-- The neighbours of a node after more have been added. -/
theorem mem_row_extend {graph : Graph} {more : Nat → IndexSet} {i j : Nat} (h : i < graph.size) :
    j ∈ (graph.extend more).row i ↔ (j ∈ graph.row i ∨ j ∈ more i) ∧ j ≠ i := by
  have hrow : graph.rows[i]? = some graph.rows[i] := List.getElem?_eq_getElem h
  simp [row, extend, hrow]

/-! ### Conflicts by name -/

/-- All names in alphabetical order. -/
def nodes (graph : Graph) : List Name := alphabetical graph.vocabulary.names

/-- The names that a name conflicts with, in alphabetical order; none for an unknown name. -/
def neighbours (graph : Graph) (name : Name) : List Name :=
  match graph.vocabulary.index? name with
  | some i => graph.vocabulary.sorted (graph.row i)
  | none => []

/-- How many names a name conflicts with; none for an unknown name. -/
def degree (graph : Graph) (name : Name) : Nat :=
  match graph.vocabulary.index? name with
  | some i => (graph.row i).size
  | none => 0

/-- Whether two names conflict; unknown names do not. -/
def interferes (graph : Graph) (left right : Name) : Bool :=
  match graph.vocabulary.index? left, graph.vocabulary.index? right with
  | some i, some j => j ∈ graph.row i
  | _, _ => false

/-- **The text of a graph**: every name with its neighbours, one name to a line. -/
def render (graph : Graph) : String :=
  String.join (graph.nodes.map fun name => " ".intercalate (name :: graph.neighbours name) ++ "\n")

end Graph

end RegisterColouring
