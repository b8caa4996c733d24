/-
**Only crowded variables stay without a register.**

A crowd is a set of names in which every variable conflicts with at least as many others as there
are registers.  Whatever the order of elimination, the first variable of a crowd to be removed is
removed with too many neighbours; and when a variable is, the names that are left are a crowd.  So
whether elimination ever has to set a variable aside is a property of the graph alone.  If it does
not, it never consults the heuristic, and every variable finds a register.

A variable that cannot be spilled is set aside only when no variable that is left can be.  The crowd
is then one of names that cannot be spilled, and their conflicts with each other alone keep it
together.

Main definitions:

* `RegisterColouring.Graph.IsCrowd` — crowds;
* `RegisterColouring.unplaced` — the variables that an outcome leaves without a register;
* `RegisterColouring.Graph.IsEasy` — no variable is set aside;
* `RegisterColouring.Graph.firmPart` — the conflicts among names that cannot be spilled.

Main results:

* `RegisterColouring.Graph.IsCrowd.exists_optimistic`, `RegisterColouring.Graph.exists_crowd`,
  `RegisterColouring.Graph.isEasy_iff` — variables are set aside because of crowds;
* `RegisterColouring.Graph.IsEasy.eliminate_eq`, `RegisterColouring.Graph.IsEasy.colour_eq` —
  without them the choices do not matter;
* `RegisterColouring.Graph.only_crowded_fail` — **only variables with many neighbours fail**;
* `RegisterColouring.Graph.spillable_never_impossible` — **variables that can be spilled never make
  colouring impossible**.
-/

import RegisterColouring.Proofs.Outcomes

set_option autoImplicit false

namespace RegisterColouring

theorem IndexSet.size_mono {a b : IndexSet} (h : ∀ i ∈ a, i ∈ b) : a.size ≤ b.size :=
  size_le_of_subset fun i hi => mem_toList.2 (h i hi)

/-- **The variables that an outcome leaves without a register**: those to spill, or those that it
reports. -/
def unplaced : Except ColouringError Colouring → List Name
  | .ok colouring => colouring.spills
  | .error (.unsatisfiable _ nodes) => nodes
  | .error (.stranded _ node _) => [node]

namespace Graph

variable {graph : Graph} {options options' : ColouringOptions} {function : String}

/-! ### Crowds -/

/-- **A crowd**: names, at least one of them a variable, such that every variable among them has at
least as many neighbours among them as there are registers. -/
structure IsCrowd (graph : Graph) (crowd : IndexSet) : Prop where
  exists_variable : ∃ node ∈ graph.variableNodes, node ∈ crowd
  hard : ∀ node ∈ graph.variableNodes, node ∈ crowd → Register.count ≤ graph.degreeIn crowd node

theorem degreeIn_le_size (graph : Graph) (present : IndexSet) (node : Nat) :
    graph.degreeIn present node ≤ (graph.row node).size :=
  IndexSet.size_mono fun _ hk => (IndexSet.mem_inter.1 hk).1

/-- **A crowd makes elimination set a variable aside**, whatever the options. -/
theorem IsCrowd.exists_optimistic {crowd : IndexSet} (h : graph.IsCrowd crowd)
    (hsimple : graph.Simple) (options : ColouringOptions) :
    ∃ removal ∈ graph.eliminate options, removal.isOptimistic = true := by
  have hperm := graph.eliminate_perm options
  -- the first variable of the crowd to be removed still has all its neighbours in the crowd
  cases hfind : (graph.eliminate options).find? fun removal => decide (removal.node ∈ crowd) with
  | none =>
      obtain ⟨node, hnode, hcrowd⟩ := h.exists_variable
      obtain ⟨removal, hremoval, rfl⟩ := List.mem_map.1 (hperm.symm.subset hnode)
      exact absurd (decide_eq_true hcrowd) (List.find?_eq_none.1 hfind removal hremoval)
  | some removal =>
      obtain ⟨hcrowd, before, later, hsplit, hbefore⟩ := List.find?_eq_some_iff_append.1 hfind
      have hmem := List.mem_of_find?_eq_some hfind
      refine ⟨removal, hmem, ?_⟩
      obtain ⟨present, hpresent, hstage⟩ := eliminate_stage hsplit
      have hhard := h.hard removal.node (hperm.subset (List.mem_map_of_mem hmem))
        (of_decide_eq_true hcrowd)
      have hmono : graph.degreeIn crowd removal.node ≤ graph.degreeIn present removal.node := by
        refine IndexSet.size_mono fun k hk => ?_
        obtain ⟨hrow, hk⟩ := IndexSet.mem_inter.1 hk
        refine IndexSet.mem_inter.2 ⟨hrow, (hpresent k).2 ⟨hsimple.lt hrow, ?_⟩⟩
        intro hremoved
        obtain ⟨earlier, hearlier, rfl⟩ := List.mem_map.1 hremoved
        simpa [hk] using hbefore earlier hearlier
      rw [Removal.isOptimistic, hstage.degree_eq, decide_eq_true_eq]
      exact Nat.le_trans hhard hmono

/-- **A variable is set aside only in a crowd**: what is left then is one, and a variable of it that
is no register is removed then or later. -/
theorem exists_crowd {before later : List Removal} {removal : Removal}
    (hsplit : graph.eliminate options = before ++ removal :: later)
    (hoptimistic : removal.isOptimistic = true) :
    ∃ crowd, graph.IsCrowd crowd ∧ ∀ k ∈ crowd, graph.vocabulary.name k ∈ Register.generalPurpose ∨
      k ∈ removal.node :: later.map Removal.node := by
  have hperm := graph.eliminate_perm options
  obtain ⟨crowd, hcrowd, hstage⟩ := eliminate_stage hsplit
  rw [hsplit, List.map_append, List.map_cons] at hperm
  have hnode : removal.node ∈ graph.variableNodes := hperm.subset (by simp)
  refine ⟨crowd, ⟨⟨removal.node, hnode, ?_⟩, fun k hk hmem => ?_⟩, fun k hmem => ?_⟩
  · refine (hcrowd _).2 ⟨(mem_variableNodes.1 hnode).1, fun hbefore => ?_⟩
    have hnodup := hperm.nodup_iff.2 graph.nodup_variableNodes
    exact (List.nodup_append.1 hnodup).2.2 _ hbefore _ (List.mem_cons_self ..) rfl
  · exact hstage.hard hoptimistic k (mem_later hsplit hk ((hcrowd k).1 hmem).2)
  · obtain ⟨hlt, hbefore⟩ := (hcrowd k).1 hmem
    by_cases hregister : graph.vocabulary.name k ∈ Register.generalPurpose
    · exact Or.inl hregister
    · exact Or.inr (mem_later hsplit (mem_variableNodes.2 ⟨hlt, hregister⟩) hbefore)

/-! ### Elimination without a crowd -/

/-- **No variable is set aside** with too many neighbours. -/
def IsEasy (graph : Graph) (options : ColouringOptions) : Prop :=
  ∀ removal ∈ graph.eliminate options, removal.isOptimistic = false

/-- **Elimination sets no variable aside exactly if there is no crowd.** -/
theorem isEasy_iff (hsimple : graph.Simple) :
    graph.IsEasy options ↔ ∀ crowd, ¬ graph.IsCrowd crowd := by
  constructor
  · intro heasy crowd hcrowd
    obtain ⟨removal, hremoval, hoptimistic⟩ := hcrowd.exists_optimistic hsimple options
    simp [heasy removal hremoval] at hoptimistic
  · intro hnone removal hremoval
    refine Bool.eq_false_iff.2 fun hoptimistic => ?_
    obtain ⟨before, later, hsplit⟩ := List.append_of_mem hremoval
    obtain ⟨crowd, hcrowd, -⟩ := exists_crowd hsplit hoptimistic
    exact hnone crowd hcrowd

/-- A removal with few neighbours takes the easiest variable, which does not depend on the
options. -/
theorem nextRemoval_eq_of_easy {present : IndexSet} {first : Nat} {rest : List Nat}
    (h : (graph.nextRemoval options present first rest).isOptimistic = false) :
    graph.nextRemoval options' present first rest =
      graph.nextRemoval options present first rest := by
  have hmem := nextRemoval_mem graph options present first rest
  have hle := choose_easier_le graph present first rest _ hmem
  have heasiest :
      graph.degreeIn present (choose (graph.easier present) first rest) < Register.count := by
    rw [Removal.isOptimistic, decide_eq_false_iff_not] at h
    exact Nat.lt_of_le_of_lt hle (Nat.lt_of_not_le h)
  simp only [nextRemoval, if_pos heasiest]

theorem eliminateFrom_eq_of_easy {steps : Nat} {present : IndexSet} {nodes : List Nat}
    (h : ∀ removal ∈ graph.eliminateFrom options steps present nodes,
      removal.isOptimistic = false) :
    graph.eliminateFrom options' steps present nodes =
      graph.eliminateFrom options steps present nodes := by
  induction steps generalizing present nodes with
  | zero => rfl
  | succ steps ih =>
      cases nodes with
      | nil => rfl
      | cons first rest =>
          simp only [eliminateFrom, List.forall_mem_cons] at h
          rw [eliminateFrom, eliminateFrom, nextRemoval_eq_of_easy h.1, ih h.2]

/-- **If no variable is set aside, the order of elimination does not depend on the options.** -/
theorem IsEasy.eliminate_eq (h : graph.IsEasy options) (options' : ColouringOptions) :
    graph.eliminate options' = graph.eliminate options :=
  eliminateFrom_eq_of_easy h

/-- An outcome reports how many variables have been set aside. -/
theorem optimistic_eq {colouring : Colouring} (h : graph.colour function options = .ok colouring) :
    colouring.optimistic = ((graph.eliminate options).filter Removal.isOptimistic).length := by
  simp only [colour] at h
  split at h
  · simp at h
  · split at h
    · rw [← Except.ok.inj h]
    · unfold outcome at h
      dsimp only at h
      split at h
      · simp at h
      · rw [← Except.ok.inj h]

theorem isEasy_of_optimistic_eq_zero {colouring : Colouring}
    (h : graph.colour function options = .ok colouring) (hzero : colouring.optimistic = 0) :
    graph.IsEasy options := by
  rw [optimistic_eq h, List.length_eq_zero_iff, List.filter_eq_nil_iff] at hzero
  intro removal hremoval
  exact Bool.eq_false_iff.2 (hzero removal hremoval)

/-- **If no variable is set aside, every variable gets a register**, and the same one for all
options. -/
theorem IsEasy.colour_eq (h : graph.IsEasy options) (hsimple : graph.Simple)
    (hnodup : graph.vocabulary.names.Nodup) (function : String) :
    ∃ assigned, ∀ options', graph.colour function options' = .ok ⟨.registers assigned, 0⟩ := by
  obtain ⟨selection, hselect, hselected⟩ := select_spec hsimple hnodup function options
  have hfailed : selection.failed = [] := by
    refine List.eq_nil_iff_forall_not_mem.2 fun node hnode => ?_
    obtain ⟨before, removal, later, -, hsplit, -, hoptimistic, -⟩ := hselected.failed node hnode
    have hremoval : removal ∈ graph.eliminate options := by simp [hsplit]
    simp [h removal hremoval] at hoptimistic
  have hnone : (graph.eliminate options).filter Removal.isOptimistic = [] :=
    List.filter_eq_nil_iff.2 fun removal hremoval => by simp [h removal hremoval]
  refine ⟨graph.registersOf selection.colours, fun options' => ?_⟩
  simp [colour, h.eliminate_eq options', hselect, hfailed, hnone]

/-! ### Variables without a register -/

theorem mem_of_mem_unplaced_outcome {optimistic : Nat} {failed : List Name} {name : Name}
    (h : name ∈ unplaced (outcome function options optimistic failed)) : name ∈ failed := by
  unfold outcome at h
  dsimp only at h
  split at h
  · exact mem_alphabetical.1 h
  · exact List.mem_of_mem_filter (mem_alphabetical.1 h)

/-- A variable that an outcome leaves without a register came back and found none. -/
theorem exists_failed (hsimple : graph.Simple) (hnodup : graph.vocabulary.names.Nodup) {name : Name}
    (h : name ∈ unplaced (graph.colour function options)) :
    ∃ node ∈ graph.variableNodes, graph.vocabulary.name node = name ∧
      graph.Failed (graph.eliminate options) node := by
  obtain ⟨selection, -, hselected, hcolour⟩ := colour_eq hsimple hnodup function options
  rw [hcolour] at h
  split at h
  · exact absurd h List.not_mem_nil
  · obtain ⟨node, hnode, hname⟩ := List.mem_map.1 (mem_of_mem_unplaced_outcome h)
    exact ⟨node, hselected.failed_mem node hnode, hname, hselected.failed node hnode⟩

/-- A variable that comes back and finds no register has at least as many neighbours as there are
registers. -/
theorem Failed.count_le_size {node : Nat} (h : graph.Failed (graph.eliminate options) node) :
    Register.count ≤ (graph.row node).size := by
  obtain ⟨before, removal, later, -, hsplit, rfl, hoptimistic, -⟩ := h
  obtain ⟨present, -, hstage⟩ := eliminate_stage hsplit
  exact Nat.le_trans (hstage.hard hoptimistic _ (List.mem_cons_self ..)) (graph.degreeIn_le_size ..)

theorem degree_name (hsimple : graph.Simple) (hnodup : graph.vocabulary.names.Nodup) {node : Nat}
    (hnode : node < graph.size) :
    graph.degree (graph.vocabulary.name node) = (graph.row node).size := by
  rw [degree, Vocabulary.index?_name hnodup (hsimple.size_eq ▸ hnode)]

/-- **Only variables with many neighbours fail**, in every graph made by adding conflicts.  A
variable that is left without a register has at least fifteen neighbours.  If the outcome reports
that no variable was set aside, it has a register for every variable, and is the same for all
options.  In particular this is so if all variables have fewer than fifteen neighbours. -/
theorem only_crowded_fail {vars : List String} {graph : Graph}
    (hgraph : Built (Vocabulary.ofVariables vars) graph) (function : String)
    (options : ColouringOptions) :
    (∀ name ∈ unplaced (graph.colour function options), 15 ≤ graph.degree name) ∧
    (∀ colouring, graph.colour function options = .ok colouring → colouring.optimistic = 0 →
      graph.EndsColoured vars (.ok colouring) ∧
      ∀ options', graph.colour function options' = .ok colouring) ∧
    ((∀ v ∈ vars, graph.degree (Name.ofVariable v) < 15) → ∃ assigned,
      graph.IsAssignment vars assigned ∧
      ∀ options', graph.colour function options' = .ok ⟨.registers assigned, 0⟩) := by
  have hsimple := hgraph.simple
  have hnodup := hgraph.nodup
  -- a colouring that sets nothing aside is valid, and the only one
  have heasy : graph.IsEasy options → ∃ assigned, graph.IsAssignment vars assigned ∧
      ∀ options', graph.colour function options' = .ok ⟨.registers assigned, 0⟩ := by
    intro heasy
    obtain ⟨assigned, hcolour⟩ := heasy.colour_eq hsimple hnodup function
    exact ⟨assigned, isAssignment hsimple hgraph.vocabulary_eq (hcolour options), hcolour⟩
  refine ⟨?_, ?_, ?_⟩
  · intro name hname
    obtain ⟨node, hnode, rfl, hfailed⟩ := exists_failed hsimple hnodup hname
    rw [degree_name hsimple hnodup (mem_variableNodes.1 hnode).1]
    exact hfailed.count_le_size
  · intro colouring hcolour hzero
    obtain ⟨assigned, hassigned, hall⟩ := heasy (isEasy_of_optimistic_eq_zero hcolour hzero)
    obtain rfl : colouring = ⟨.registers assigned, 0⟩ :=
      Except.ok.inj (hcolour.symm.trans (hall options))
    exact ⟨⟨_, assigned, rfl, rfl, rfl, hassigned⟩, hall⟩
  · intro hfew
    refine heasy ((isEasy_iff hsimple).2 fun crowd hcrowd => ?_)
    obtain ⟨node, hnode, hmem⟩ := hcrowd.exists_variable
    obtain ⟨v, hv, hname⟩ := (mem_map_variableNodes hsimple hgraph.vocabulary_eq).1
      (List.mem_map_of_mem hnode)
    have hlt := hfew v hv
    rw [← hname, degree_name hsimple hnodup (mem_variableNodes.1 hnode).1] at hlt
    have hhard : 15 ≤ graph.degreeIn crowd node := hcrowd.hard node hnode hmem
    have hle := graph.degreeIn_le_size crowd node
    omega

/-- A graph in which one of two variables conflicts with all registers but the last. -/
def fenced : Graph :=
  (edgeless (Vocabulary.ofVariables ["a", "b"])).addBiclique (IndexSet.singleton 15)
    (IndexSet.ofList (List.range 14))

/-- The same graph, where the other variable conflicts with all names. -/
def overrun : Graph :=
  fenced.addBiclique (IndexSet.singleton 16) (IndexSet.ofList (List.range 16))

theorem built_fenced : Built (Vocabulary.ofVariables ["a", "b"]) fenced :=
  Built.edgeless.addBiclique (fun _ hi => IndexSet.mem_singleton.1 hi ▸ by decide)
    fun _ hi => Nat.lt_trans (List.mem_range.1 (IndexSet.mem_ofList.1 hi)) (by decide)

theorem built_overrun : Built (Vocabulary.ofVariables ["a", "b"]) overrun :=
  built_fenced.addBiclique (fun _ hi => IndexSet.mem_singleton.1 hi ▸ by decide)
    fun _ hi => Nat.lt_trans (List.mem_range.1 (IndexSet.mem_ofList.1 hi)) (by decide)

/-- With fourteen neighbours a variable gets the last register, for all options; with all registers
for neighbours it is spilled. -/
theorem fenced_only_crowded_fail :
    (∀ v ∈ ["a", "b"], fenced.degree (Name.ofVariable v) < 15) ∧
      fenced.IsAssignment ["a", "b"] [("%a", "rbx"), ("%b", "rdi")] ∧
      (∀ options, fenced.colour "f" options =
        .ok ⟨.registers [("%a", "rbx"), ("%b", "rdi")], 0⟩) ∧
      unplaced (overrun.colour "f" ⟨.highestDegree, ["%a"]⟩) = ["%b"] ∧
      15 ≤ overrun.degree "%b" := by
  have hdegrees : ∀ v ∈ ["a", "b"], fenced.degree (Name.ofVariable v) < 15 := by decide +kernel
  have hcolour : fenced.colour "f" ⟨.firstSeen, []⟩ =
      .ok ⟨.registers [("%a", "rbx"), ("%b", "rdi")], 0⟩ := by decide +kernel
  have hunplaced : unplaced (overrun.colour "f" ⟨.highestDegree, ["%a"]⟩) = ["%b"] := by
    decide +kernel
  obtain ⟨-, hzero, hfew⟩ := only_crowded_fail built_fenced "f" ⟨.firstSeen, []⟩
  obtain ⟨assigned, hassigned, hall⟩ := hfew hdegrees
  obtain rfl : assigned = [("%a", "rbx"), ("%b", "rdi")] := by
    simpa using (hall ⟨.firstSeen, []⟩).symm.trans hcolour
  exact ⟨hdegrees, hassigned, (hzero _ hcolour rfl).2, hunplaced,
    (only_crowded_fail built_overrun "f" ⟨.highestDegree, ["%a"]⟩).1 "%b" (by simp [hunplaced])⟩

/-! ### Conflicts among names that cannot be spilled -/

/-- A node that cannot be spilled: a register, or a variable that is not to be. -/
def isFirm (graph : Graph) (options : ColouringOptions) (node : Nat) : Bool :=
  graph.vocabulary.isRegister node || !graph.isSpillable options node

/-- **The graph without the conflicts of variables that can be spilled.** -/
def firmPart (graph : Graph) (options : ColouringOptions) : Graph :=
  { graph with
    rows := graph.rows.mapIdx fun node row =>
      if graph.isFirm options node then
        IndexSet.ofList (row.toList.filter (graph.isFirm options))
      else ∅ }

@[simp] theorem vocabulary_firmPart : (graph.firmPart options).vocabulary = graph.vocabulary := rfl

@[simp] theorem size_firmPart : (graph.firmPart options).size = graph.size := by
  simp [firmPart, size]

@[simp] theorem variableNodes_firmPart :
    (graph.firmPart options).variableNodes = graph.variableNodes := by
  simp [variableNodes]

theorem mem_row_firmPart {i j : Nat} :
    j ∈ (graph.firmPart options).row i ↔
      j ∈ graph.row i ∧ graph.isFirm options i = true ∧ graph.isFirm options j = true := by
  simp only [row, firmPart, List.getElem?_mapIdx]
  cases graph.rows[i]? with
  | none => simp
  | some row => by_cases hi : graph.isFirm options i = true <;> simp [hi]

theorem Simple.firmPart (hsimple : graph.Simple) (options : ColouringOptions) :
    (graph.firmPart options).Simple where
  size_eq := by simp [hsimple.size_eq]
  symm i j h := by
    obtain ⟨hrow, hi, hj⟩ := mem_row_firmPart.1 h
    exact mem_row_firmPart.2 ⟨hsimple.symm i j hrow, hj, hi⟩
  irrefl i h := hsimple.irrefl i (mem_row_firmPart.1 h).1

/-- A crowd of names that cannot be spilled is held together by their own conflicts. -/
theorem IsCrowd.firmPart {crowd : IndexSet} (h : graph.IsCrowd crowd)
    (hfirm : ∀ k ∈ crowd, graph.isFirm options k = true) :
    (graph.firmPart options).IsCrowd crowd where
  exists_variable := by simpa using h.exists_variable
  hard node hnode hcrowd := by
    rw [variableNodes_firmPart] at hnode
    refine Nat.le_trans (h.hard node hnode hcrowd) (IndexSet.size_mono fun k hk => ?_)
    obtain ⟨hrow, hk⟩ := IndexSet.mem_inter.1 hk
    exact IndexSet.mem_inter.2
      ⟨mem_row_firmPart.2 ⟨hrow, hfirm node hcrowd, hfirm k hk⟩, hk⟩

/-- **A variable that cannot be spilled is set aside only in a crowd of such names.** -/
theorem exists_crowd_firmPart {before later : List Removal} {removal : Removal}
    (hsplit : graph.eliminate options = before ++ removal :: later)
    (hoptimistic : removal.isOptimistic = true)
    (hspillable : graph.isSpillable options removal.node = false) :
    ∃ crowd, (graph.firmPart options).IsCrowd crowd := by
  obtain ⟨crowd, hcrowd, hkinds⟩ := exists_crowd hsplit hoptimistic
  obtain ⟨present, -, hstage⟩ := eliminate_stage hsplit
  refine ⟨crowd, hcrowd.firmPart fun k hk => ?_⟩
  rcases hkinds k hk with hregister | hlater
  · simp [isFirm, Vocabulary.isRegister, hregister]
  · simp [isFirm, hstage.stuck hoptimistic hspillable k hlater]

/-- **Variables that can be spilled never make colouring impossible.**  If elimination sets no
variable aside in the graph that has only the conflicts among registers and variables that cannot be
spilled, colouring the whole graph does not end with an error. -/
theorem spillable_never_impossible {vars : List String} {graph : Graph}
    (hgraph : Built (Vocabulary.ofVariables vars) graph) {options options' : ColouringOptions}
    {function function' : String} {colouring : Colouring}
    (hfirm : (graph.firmPart options).colour function' options' = .ok colouring)
    (hzero : colouring.optimistic = 0) (e : ColouringError) :
    graph.colour function options ≠ .error e := by
  intro herror
  obtain ⟨-, node, -, hspillable, before, removal, later, -, hsplit, rfl, hoptimistic, -⟩ :=
    colour_error hgraph.simple hgraph.nodup herror
  obtain ⟨crowd, hcrowd⟩ := exists_crowd_firmPart hsplit hoptimistic hspillable
  exact (isEasy_iff (hgraph.simple.firmPart options)).1 (isEasy_of_optimistic_eq_zero hfirm hzero)
    crowd hcrowd

/-- The second variable can be spilled, and its conflict with the first, which cannot, does no
harm. -/
theorem overrun_never_impossible :
    (overrun.firmPart ⟨.highestDegree, ["%a"]⟩).colour "f" ⟨.firstSeen, []⟩ =
        .ok ⟨.registers [("%a", "rbx"), ("%b", "rdi")], 0⟩ ∧
      overrun.colour "f" ⟨.highestDegree, ["%a"]⟩ = .ok ⟨.spills ["%b"], 1⟩ ∧
      ∀ e, overrun.colour "f" ⟨.highestDegree, ["%a"]⟩ ≠ .error e := by
  have hfirm : (overrun.firmPart ⟨.highestDegree, ["%a"]⟩).colour "f" ⟨.firstSeen, []⟩ =
      .ok ⟨.registers [("%a", "rbx"), ("%b", "rdi")], 0⟩ := by decide +kernel
  exact ⟨hfirm, by decide +kernel, spillable_never_impossible built_overrun hfirm rfl⟩

end Graph

end RegisterColouring
