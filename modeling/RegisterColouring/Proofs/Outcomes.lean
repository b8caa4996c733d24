/-
**The outcomes of colouring.**

A conflict graph is made from one without conflicts by adding edges, cliques and bicliques, in any
number and order.  Colouring such a graph ends in one of three ways, and in one only: with a register
for every variable, none of them shared by names that conflict; with a list of variables to spill,
all of which can be; or, if none of the variables left without a register can be spilled, with the
list of these.

Main definitions:

* `RegisterColouring.Graph.Built` — graphs made by adding conflicts;
* `RegisterColouring.Graph.IsAssignment` — a valid colouring;
* `RegisterColouring.VariableList` — a nonempty list of variables in alphabetical order;
* `RegisterColouring.Graph.EndsColoured`, `RegisterColouring.Graph.EndsSpilling`,
  `RegisterColouring.Graph.EndsImpossible` — the three ways in which colouring ends.

Main results:

* `RegisterColouring.Graph.Built.simple` — graphs made by adding conflicts are simple;
* `RegisterColouring.Graph.isAssignment` — the registers of the variables are a valid colouring;
* `RegisterColouring.Graph.outcome_cases` — what becomes of variables without a register;
* `RegisterColouring.Graph.colour_ends_one_way` — **colouring ends in exactly one of three ways**.
-/

import RegisterColouring.Proofs.Selection

set_option autoImplicit false

namespace RegisterColouring

namespace Graph

/-! ### Graphs made by adding conflicts -/

/-- **A graph made by adding conflicts** to one without, for the names of a vocabulary.  Every node
that is joined to another is one of the graph. -/
inductive Built (vocabulary : Vocabulary) : Graph → Prop
  | edgeless : Built vocabulary (edgeless vocabulary)
  | addEdge {graph : Graph} {i j : Nat} (hgraph : Built vocabulary graph)
      (hnodes : i ≠ j → i < graph.size ∧ j < graph.size) : Built vocabulary (graph.addEdge i j)
  | addClique {graph : Graph} {nodes : IndexSet} (hgraph : Built vocabulary graph)
      (hnodes : ∀ i ∈ nodes, i < graph.size) : Built vocabulary (graph.addClique nodes)
  | addBiclique {graph : Graph} {left right : IndexSet} (hgraph : Built vocabulary graph)
      (hleft : ∀ i ∈ left, i < graph.size) (hright : ∀ i ∈ right, i < graph.size) :
      Built vocabulary (graph.addBiclique left right)

variable {vocabulary : Vocabulary} {graph : Graph}

theorem Built.vocabulary_eq (h : Built vocabulary graph) : graph.vocabulary = vocabulary := by
  induction h with
  | edgeless => rfl
  | addEdge _ _ ih => exact ih
  | addClique _ _ ih => exact ih
  | addBiclique _ _ _ ih => exact ih

theorem Built.nodup {vars : List String} (h : Built (Vocabulary.ofVariables vars) graph) :
    graph.vocabulary.names.Nodup := by
  rw [h.vocabulary_eq]
  exact Vocabulary.nodup_ofVariables vars

/-- An edge from a node to itself is not added. -/
theorem Simple.addEdge_self (hsimple : graph.Simple) (i : Nat) : graph.addEdge i i = graph := by
  have hrows : (graph.addEdge i i).rows = graph.rows := by
    apply List.ext_getElem (by simp [Graph.addEdge, Graph.addBiclique, Graph.extend])
    intro k hk hk'
    apply IndexSet.ext
    intro j
    have hself : k ∉ graph.rows[k] := by
      have := hsimple.irrefl k
      rwa [row, List.getElem?_eq_getElem hk', Option.getD_some] at this
    simp only [Graph.addEdge, Graph.addBiclique, Graph.extend, List.getElem_mapIdx,
      IndexSet.mem_erase, IndexSet.mem_union]
    constructor
    · rintro ⟨h | h, hne⟩
      · exact h
      · split at h <;> simp_all
    · intro h
      exact ⟨Or.inl h, fun heq => hself (heq ▸ h)⟩
  obtain ⟨vocabulary, rows⟩ := graph
  exact congrArg (Graph.mk vocabulary) hrows

/-- **Graphs made by adding conflicts are simple.** -/
theorem Built.simple (h : Built vocabulary graph) : graph.Simple := by
  induction h with
  | edgeless => exact simple_edgeless vocabulary
  | @addEdge graph i j _ hnodes ih =>
      by_cases hij : i = j
      · rw [hij, ih.addEdge_self]
        exact ih
      · obtain ⟨hi, hj⟩ := hnodes hij
        exact ih.addBiclique (fun k hk => IndexSet.mem_singleton.1 hk ▸ hi)
          fun k hk => IndexSet.mem_singleton.1 hk ▸ hj
  | addClique _ hnodes ih => exact ih.addClique hnodes
  | addBiclique _ hleft hright ih => exact ih.addBiclique hleft hright

end Graph

/-! ### Valid outcomes -/

/-- A name that is one of some variables. -/
def IsVariableOf (vars : List String) (name : Name) : Prop := ∃ v ∈ vars, name = Name.ofVariable v

/-- **A valid colouring** of some variables: each of them has one general purpose register, and names
that conflict have different ones. -/
structure Graph.IsAssignment (graph : Graph) (vars : List String)
    (assigned : List (Name × String)) : Prop where
  nodup : (assigned.map Prod.fst).Nodup
  domain : ∀ name, name ∈ assigned.map Prod.fst ↔ IsVariableOf vars name
  register : ∀ name r, (name, r) ∈ assigned → r ∈ Register.generalPurpose
  distinct : ∀ u r w s, (u, r) ∈ assigned → (w, s) ∈ assigned →
    graph.interferes u w = true → r ≠ s
  avoids : ∀ u r, (u, r) ∈ assigned → graph.interferes u r = false

/-- A list of variables, not empty, in alphabetical order and without repetitions. -/
structure VariableList (vars : List String) (names : List Name) : Prop where
  nonempty : names ≠ []
  sorted : names.Pairwise (· < ·)
  isVariable : ∀ name ∈ names, IsVariableOf vars name

namespace Graph

/-- Colouring ends with a valid colouring, and nothing is to be spilled. -/
def EndsColoured (graph : Graph) (vars : List String) (outcome : Except ColouringError Colouring) :
    Prop :=
  ∃ colouring assigned, outcome = .ok colouring ∧ colouring.registers? = some assigned ∧
    colouring.spills = [] ∧ graph.IsAssignment vars assigned

/-- Colouring ends without registers and with variables to spill, all of which can be. -/
def EndsSpilling (vars : List String) (options : ColouringOptions)
    (outcome : Except ColouringError Colouring) : Prop :=
  ∃ colouring, outcome = .ok colouring ∧ colouring.registers? = none ∧
    VariableList vars colouring.spills ∧ ∀ name ∈ colouring.spills, name ∉ options.unspillable

/-- Colouring ends with an error that lists variables without a register, none of which can be
spilled. -/
def EndsImpossible (function : String) (vars : List String) (options : ColouringOptions)
    (outcome : Except ColouringError Colouring) : Prop :=
  ∃ nodes, outcome = .error (.unsatisfiable function nodes) ∧ VariableList vars nodes ∧
    ∀ name ∈ nodes, name ∈ options.unspillable

variable {graph : Graph} {vars : List String} {function : String} {options : ColouringOptions}

/-! ### Variables of the graph -/

theorem mem_map_variableNodes (hsimple : graph.Simple)
    (hvocabulary : graph.vocabulary = Vocabulary.ofVariables vars) {name : Name} :
    name ∈ graph.variableNodes.map graph.vocabulary.name ↔ IsVariableOf vars name := by
  rw [List.mem_map]
  constructor
  · rintro ⟨node, hnode, rfl⟩
    obtain ⟨hlt, hregister⟩ := mem_variableNodes.1 hnode
    have hmem := Vocabulary.name_mem (hsimple.size_eq ▸ hlt)
    rw [hvocabulary, Vocabulary.mem_names_ofVariables] at hmem
    rw [hvocabulary] at hregister ⊢
    exact hmem.resolve_left hregister
  · rintro ⟨v, hv, rfl⟩
    have hmem : Name.ofVariable v ∈ graph.vocabulary.names := by
      rw [hvocabulary, Vocabulary.mem_names_ofVariables]
      exact Or.inr ⟨v, hv, rfl⟩
    obtain ⟨node, hnode⟩ := Vocabulary.exists_index? hmem
    have hname := Vocabulary.name_of_index? hnode
    refine ⟨node, mem_variableNodes.2 ⟨?_, ?_⟩, hname⟩
    · rw [hsimple.size_eq]
      exact Vocabulary.lt_of_index? hnode
    · rw [hname]
      exact Name.ofVariable_not_mem_generalPurpose v

/-- Different variable nodes have different names. -/
theorem nodup_map_name (hsimple : graph.Simple) (hnodup : graph.vocabulary.names.Nodup)
    {nodes : List Nat} (hnodes : nodes.Nodup) (hmem : ∀ node ∈ nodes, node ∈ graph.variableNodes) :
    (nodes.map graph.vocabulary.name).Nodup := by
  refine List.Nodup.map_on ?_ hnodes
  intro i hi j hj h
  have hlt := fun {k} hk => hsimple.size_eq ▸ (mem_variableNodes.1 (hmem k hk)).1
  exact (Vocabulary.name_inj hnodup (hlt hi) (hlt hj)).1 h

/-! ### The three ends -/

theorem place_of_mem {assigned : List (Name × String)} (hnodup : (assigned.map Prod.fst).Nodup)
    {u : Name} {r : String} (h : (u, r) ∈ assigned) : place assigned u = r := by
  rw [place, (lookup_eq_some_iff_mem hnodup).2 h, Option.getD_some]

/-- **The registers of the variables are a valid colouring.** -/
theorem isAssignment (hsimple : graph.Simple)
    (hvocabulary : graph.vocabulary = Vocabulary.ofVariables vars)
    {assigned : List (Name × String)} {optimistic : Nat}
    (h : graph.colour function options = .ok ⟨.registers assigned, optimistic⟩) :
    graph.IsAssignment vars assigned := by
  have hnames : graph.vocabulary.names.Nodup := by
    rw [hvocabulary]
    exact Vocabulary.nodup_ofVariables vars
  obtain ⟨colours, -, -, hassigned⟩ := colour_registers hsimple hnames h
  have hkeys : assigned.map Prod.fst = graph.variableNodes.map graph.vocabulary.name := by
    rw [hassigned, registersOf, List.map_map]
    rfl
  have hnodup : (assigned.map Prod.fst).Nodup := by
    rw [hkeys]
    exact nodup_map_name hsimple hnames graph.nodup_variableNodes fun _ hnode => hnode
  have hdomain : ∀ name, name ∈ assigned.map Prod.fst ↔ IsVariableOf vars name := by
    intro name
    rw [hkeys, mem_map_variableNodes hsimple hvocabulary]
  have hregister : ∀ name r, (name, r) ∈ assigned → r ∈ Register.generalPurpose := by
    intro name r hmem
    rw [← place_of_mem hnodup hmem]
    apply place_mem hsimple hnames h
    obtain ⟨v, hv, rfl⟩ := (hdomain name).1 (List.mem_map_of_mem hmem)
    rw [hvocabulary, Vocabulary.mem_names_ofVariables]
    exact Or.inr ⟨v, hv, rfl⟩
  refine ⟨hnodup, hdomain, hregister, ?_, ?_⟩
  · intro u r w s hu hw huw
    rw [← place_of_mem hnodup hu, ← place_of_mem hnodup hw]
    exact place_ne hsimple hnames h huw
  · intro u r hu
    rw [← Bool.not_eq_true]
    intro hur
    apply place_ne hsimple hnames h hur
    rw [place_of_mem hnodup hu, place_register hsimple hnames h (hregister u r hu)]

/-- Alphabetical order without repetitions is strict. -/
theorem alphabetical_pairwise_lt {names : List Name} (h : names.Nodup) :
    (alphabetical names).Pairwise (· < ·) := by
  have hnodup := (alphabetical_perm names).nodup_iff.2 h
  refine ((alphabetical_sorted names).and hnodup).imp ?_
  rintro a b ⟨hle, hne⟩
  rw [← String.not_le]
  exact fun hge => hne (String.le_antisymm hle hge)

theorem variableList_alphabetical {names : List Name} (hne : names ≠ []) (hnodup : names.Nodup)
    (hvariable : ∀ name ∈ names, IsVariableOf vars name) :
    VariableList vars (alphabetical names) where
  nonempty h := hne (List.perm_nil.1 (h ▸ (alphabetical_perm names).symm))
  sorted := alphabetical_pairwise_lt hnodup
  isVariable name hname := hvariable name (mem_alphabetical.1 hname)

/-- **What becomes of variables without a register**: those that can be spilled are, and if there are
none, colouring is impossible. -/
theorem outcome_cases {failed : List Name} (hne : failed ≠ []) (hnodup : failed.Nodup)
    (hvariable : ∀ name ∈ failed, IsVariableOf vars name) (optimistic : Nat) :
    EndsSpilling vars options (outcome function options optimistic failed) ∨
      EndsImpossible function vars options (outcome function options optimistic failed) := by
  unfold outcome
  dsimp only
  split
  · next hnone =>
    rw [List.isEmpty_iff, List.filter_eq_nil_iff] at hnone
    refine Or.inr ⟨_, rfl, variableList_alphabetical hne hnodup hvariable, ?_⟩
    intro name hname
    simpa using hnone name (mem_alphabetical.1 hname)
  · next hsome =>
    refine Or.inl ⟨_, rfl, rfl, ?_, ?_⟩
    · refine variableList_alphabetical (fun hnil => hsome (List.isEmpty_iff.2 hnil))
        (hnodup.filter _) ?_
      intro name hname
      exact hvariable name (List.mem_of_mem_filter hname)
    · intro name hname
      have hspillable := (List.mem_filter.1 (mem_alphabetical.1 hname)).2
      simpa using hspillable

theorem colour_ends (hsimple : graph.Simple)
    (hvocabulary : graph.vocabulary = Vocabulary.ofVariables vars) (function : String)
    (options : ColouringOptions) :
    graph.EndsColoured vars (graph.colour function options) ∨
      EndsSpilling vars options (graph.colour function options) ∨
      EndsImpossible function vars options (graph.colour function options) := by
  have hnames : graph.vocabulary.names.Nodup := by
    rw [hvocabulary]
    exact Vocabulary.nodup_ofVariables vars
  obtain ⟨selection, hnodup, hselected, hcolour⟩ := colour_eq hsimple hnames function options
  split at hcolour
  · exact Or.inl ⟨_, _, hcolour, rfl, rfl, isAssignment hsimple hvocabulary hcolour⟩
  · next hfailed =>
    rw [hcolour]
    refine Or.inr (outcome_cases ?_ (nodup_map_name hsimple hnames hnodup hselected.failed_mem)
      ?_ _)
    · rwa [Ne, List.map_eq_nil_iff]
    · intro name hname
      obtain ⟨node, hnode, rfl⟩ := List.mem_map.1 hname
      exact (mem_map_variableNodes hsimple hvocabulary).1
        (List.mem_map_of_mem (hselected.failed_mem node hnode))

/-! ### Only one of them -/

section Exclusive

variable {outcome : Except ColouringError Colouring}

theorem EndsColoured.not_spilling (h : graph.EndsColoured vars outcome) :
    ¬ EndsSpilling vars options outcome := by
  obtain ⟨colouring, assigned, rfl, hregisters, -⟩ := h
  rintro ⟨other, hother, hnone, -⟩
  rw [← Except.ok.inj hother, hregisters] at hnone
  simp at hnone

theorem EndsImpossible.not_coloured (h : EndsImpossible function vars options outcome) :
    ¬ graph.EndsColoured vars outcome := by
  obtain ⟨nodes, rfl, -⟩ := h
  rintro ⟨colouring, assigned, hok, -⟩
  simp at hok

theorem EndsImpossible.not_spilling (h : EndsImpossible function vars options outcome) :
    ¬ EndsSpilling vars options outcome := by
  obtain ⟨nodes, rfl, -⟩ := h
  rintro ⟨colouring, hok, -⟩
  simp at hok

end Exclusive

/-- **Colouring ends in exactly one of three ways**, for every graph made by adding conflicts for the
names of a function and for all options: with a valid colouring of the function's variables and
nothing to spill; without registers and with variables to spill that can be spilled; or with an error
that lists variables which cannot be. -/
theorem colour_ends_one_way {function : Function} {graph : Graph}
    (hbuilt : Built (Vocabulary.ofFunction function) graph) (name : String)
    (options : ColouringOptions) :
    let coloured := graph.EndsColoured function.vars (graph.colour name options)
    let spilling := EndsSpilling function.vars options (graph.colour name options)
    let impossible := EndsImpossible name function.vars options (graph.colour name options)
    (coloured ∧ ¬ spilling ∧ ¬ impossible) ∨ (¬ coloured ∧ spilling ∧ ¬ impossible) ∨
      (¬ coloured ∧ ¬ spilling ∧ impossible) := by
  intro coloured spilling impossible
  rcases colour_ends hbuilt.simple hbuilt.vocabulary_eq name options with h | h | h
  · exact Or.inl ⟨h, h.not_spilling, fun h' => h'.not_coloured h⟩
  · exact Or.inr (Or.inl ⟨fun h' => h'.not_spilling h, h, fun h' => h'.not_spilling h⟩)
  · exact Or.inr (Or.inr ⟨h.not_coloured, h.not_spilling, h⟩)

/-- A function with two variables. -/
def pairing : Function := .ofCode "pairing" 0 [.assign (.var "a") (.var "b")]

/-- The graph in which all names of the function conflict. -/
def crowded : Graph :=
  ((edgeless (Vocabulary.ofFunction pairing)).addClique
    (IndexSet.ofList (List.range 16))).addBiclique
    (IndexSet.singleton 16) (IndexSet.ofList (List.range 16))

theorem built_crowded : Built (Vocabulary.ofFunction pairing) crowded := by
  refine (Built.edgeless.addClique ?_).addBiclique ?_ ?_
  all_goals
    intro i hi
    simp only [IndexSet.mem_ofList, List.mem_range, IndexSet.mem_singleton] at hi
    rw [show Graph.size _ = 17 from rfl]
    omega

/-- Where all names conflict, one variable is to be spilled if the other cannot be. -/
theorem crowded_colour_ends_one_way :
    crowded.colour "pairing" ⟨.highestDegree, ["%a"]⟩ = .ok ⟨.spills ["%b"], 2⟩ ∧
      EndsSpilling pairing.vars ⟨.highestDegree, ["%a"]⟩
        (crowded.colour "pairing" ⟨.highestDegree, ["%a"]⟩) := by
  have hcolour : crowded.colour "pairing" ⟨.highestDegree, ["%a"]⟩ = .ok ⟨.spills ["%b"], 2⟩ := by
    decide +kernel
  refine ⟨hcolour, ?_⟩
  rcases colour_ends_one_way built_crowded "pairing" ⟨.highestDegree, ["%a"]⟩ with h | h | h
  · obtain ⟨colouring, assigned, hok, hregisters, -⟩ := h.1
    rw [← Except.ok.inj (hcolour.symm.trans hok)] at hregisters
    simp [Colouring.registers?] at hregisters
  · exact h.2.1
  · obtain ⟨nodes, herror, -⟩ := h.2.2
    rw [hcolour] at herror
    simp at herror

end Graph

end RegisterColouring
