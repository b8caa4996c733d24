/-
**The edges of a conflict graph.**

The graph of a function is built from sets of numbers, one set of rows after the other.  Here its
edges are given by name, in terms of what the analysis says is live: which pairs of names conflict,
and that no other pair does.  Building the graph looks up names and rows all the time.  The same
construction with every look-up made explicit never meets a name without a number or a number
without a row.

Main definitions:

* `RegisterColouring.Graph.addClique?`, `RegisterColouring.Graph.addBiclique?`,
  `RegisterColouring.Graph.addShift?`, `RegisterColouring.Graph.addPoints?` — conflicts, added with
  every look-up made explicit;
* `RegisterColouring.Graph.ofLiveness?` — the conflict graph, built in this way.

Main results:

* `RegisterColouring.Graph.ofLiveness?_eq` — **building the graph never fails**;
* `RegisterColouring.Graph.conflict_edges_exact` — **which names conflict**.
-/

import RegisterColouring.Proofs.ColouredRuns
import RegisterColouring.Proofs.LivePaths

set_option autoImplicit false

namespace RegisterColouring

namespace Graph

/-! ### Building with explicit look-ups -/

/-- Conflicts among all members of a set; nothing if one of them has no row. -/
def addClique? (graph : Graph) (nodes : IndexSet) : Option Graph :=
  if ∀ i ∈ nodes.toList, i < graph.size then some (graph.addClique nodes) else none

/-- Conflicts of the members of one set with those of another; nothing if one of them has no row. -/
def addBiclique? (graph : Graph) (left right : IndexSet) : Option Graph :=
  if (∀ i ∈ left.toList, i < graph.size) ∧ ∀ i ∈ right.toList, i < graph.size then
    some (graph.addBiclique left right)
  else none

/-- The conflicts of a shift with the registers that cannot hold an amount; nothing if the name of
the amount has no number. -/
def addShift? (graph : Graph) (unshiftable : IndexSet) (instruction : Instruction) : Option Graph :=
  match instruction.shiftName? with
  | none => some graph
  | some name => do
    let amount ← (graph.vocabulary.set [name]).toOption
    graph.addBiclique? amount unshiftable

/-- The conflicts at one instruction. -/
def addPoint? (graph : Graph) (unshiftable : IndexSet) (instruction : Instruction) (point : Point)
    (live : Live) : Option Graph := do
  let graph ← graph.addClique? live.before
  let graph ← graph.addClique? live.after
  let graph ← graph.addBiclique? point.kill live.after
  graph.addShift? unshiftable instruction

/-- The conflicts at some instructions; nothing if there is not one point and one entry of live names
for each of them. -/
def addPoints? (unshiftable : IndexSet) :
    Graph → List Instruction → List Point → List Live → Option Graph
  | graph, [], [], [] => some graph
  | graph, instruction :: code, point :: points, live :: rest => do
    let graph ← graph.addPoint? unshiftable instruction point live
    addPoints? unshiftable graph code points rest
  | _, _, _, _ => none

/-- **The conflict graph of a function**, with every look-up made explicit. -/
def ofLiveness? (result : Liveness) : Option Graph := do
  let registers ← (result.vocabulary.set Register.generalPurpose).toOption
  let unshiftable ← (result.vocabulary.set
    (Register.generalPurpose.filter (· != Register.shiftAmount))).toOption
  let graph ← (edgeless result.vocabulary).addClique? registers
  addPoints? unshiftable graph result.function.code result.points result.live

variable {graph : Graph} {instruction : Instruction} {point : Point} {live : Live}

theorem addClique?_eq {nodes : IndexSet} (hnodes : ∀ i ∈ nodes, i < graph.size) :
    graph.addClique? nodes = some (graph.addClique nodes) := by
  rw [addClique?, if_pos]
  intro i hi
  exact hnodes i (IndexSet.mem_toList.1 hi)

theorem addBiclique?_eq {left right : IndexSet} (hleft : ∀ i ∈ left, i < graph.size)
    (hright : ∀ i ∈ right, i < graph.size) :
    graph.addBiclique? left right = some (graph.addBiclique left right) := by
  rw [addBiclique?, if_pos]
  exact ⟨fun i hi => hleft i (IndexSet.mem_toList.1 hi),
    fun i hi => hright i (IndexSet.mem_toList.1 hi)⟩

/-- The set of known names is the one with their numbers. -/
theorem set_eq_ok {vocabulary : Vocabulary} {names : List Name} {set : IndexSet}
    (hknown : ∀ name ∈ names, name ∈ vocabulary.names)
    (hset : ∀ i, i ∈ set ↔ ∃ name ∈ names, vocabulary.index? name = some i) :
    vocabulary.set names = .ok set := by
  obtain ⟨set', hset'⟩ := Vocabulary.set_ok_iff.2 hknown
  rw [hset']
  congr 1
  apply IndexSet.ext
  intro i
  rw [hset, Vocabulary.mem_set hset']

theorem exists_index?_iff {vocabulary : Vocabulary} (hnodup : vocabulary.names.Nodup)
    {names : List Name} {i : Nat} :
    (∃ name ∈ names, vocabulary.index? name = some i) ↔
      i < vocabulary.size ∧ vocabulary.name i ∈ names := by
  constructor
  · rintro ⟨name, hname, hi⟩
    rw [Vocabulary.name_of_index? hi]
    exact ⟨Vocabulary.lt_of_index? hi, hname⟩
  · rintro ⟨hi, hname⟩
    exact ⟨_, hname, Vocabulary.index?_name hnodup hi⟩

section Known

variable {vocabulary : Vocabulary} (hvocabulary : graph.vocabulary = vocabulary)
  (hsize : graph.size = vocabulary.size)

include hvocabulary hsize

theorem addShift?_eq
    (hname : ∀ name, instruction.shiftName? = some name → name ∈ vocabulary.names) :
    graph.addShift? vocabulary.unshiftable instruction = some (graph.addShift instruction) := by
  unfold addShift? addShift
  rw [hvocabulary]
  cases hshift : instruction.shiftName? with
  | none => rfl
  | some name =>
      obtain ⟨k, hk⟩ := Vocabulary.exists_index? (hname name hshift)
      have hset : vocabulary.set [name] = .ok (IndexSet.singleton k) := by
        apply set_eq_ok
        · exact List.forall_mem_singleton.2 (hname name hshift)
        · intro i
          simp [hk, eq_comm]
      simp only [hset, Except.toOption, Option.bind_eq_bind, Option.bind_some, hk]
      refine addBiclique?_eq ?_ ?_
      · intro i hi
        rw [IndexSet.mem_singleton.1 hi, hsize]
        exact Vocabulary.lt_of_index? hk
      · intro i hi
        rw [hsize]
        exact (mem_unshiftable.1 hi).1

theorem addPoint?_eq (hbounded : ItemBounded vocabulary.size (instruction, point, live))
    (hname : ∀ name, instruction.shiftName? = some name → name ∈ vocabulary.names) :
    graph.addPoint? vocabulary.unshiftable instruction point live =
      some (graph.addPoint instruction point live) := by
  obtain ⟨hbefore, hafter, hkill⟩ := hbounded
  rw [← hsize] at hbefore hafter hkill
  have hfirst : graph.addClique? live.before = some (graph.addClique live.before) :=
    addClique?_eq hbefore
  have hsecond : (graph.addClique live.before).addClique? live.after =
      some ((graph.addClique live.before).addClique live.after) :=
    addClique?_eq (by simpa using hafter)
  have hthird : ((graph.addClique live.before).addClique live.after).addBiclique? point.kill
      live.after = some (((graph.addClique live.before).addClique live.after).addBiclique point.kill
        live.after) :=
    addBiclique?_eq (by simpa using hkill) (by simpa using hafter)
  simp only [addPoint?, hfirst, hsecond, hthird, Option.bind_eq_bind, Option.bind_some]
  exact addShift?_eq (by simpa using hvocabulary) (by simpa using hsize) hname

/-- The loop over the instructions goes through if every set that it meets is one of numbers with
rows and every shift takes its amount from a name with a number. -/
theorem addPoints?_eq {code : List Instruction} {points : List Point} {table : List Live}
    (hpoints : points.length = code.length) (htable : table.length = code.length)
    (hbounded : ∀ item ∈ code.zip (points.zip table), ItemBounded vocabulary.size item)
    (hname : ∀ instruction ∈ code, ∀ name, instruction.shiftName? = some name →
      name ∈ vocabulary.names) :
    addPoints? vocabulary.unshiftable graph code points table =
      some (graph.addPoints (code.zip (points.zip table))) := by
  induction code generalizing graph points table with
  | nil =>
      rw [List.length_eq_zero_iff.1 hpoints, List.length_eq_zero_iff.1 htable]
      rfl
  | cons instruction code ih =>
      cases points with
      | nil => simp at hpoints
      | cons point points =>
          cases table with
          | nil => simp at htable
          | cons live table =>
              have hpoint := addPoint?_eq hvocabulary hsize (hbounded _ (List.mem_cons_self ..))
                (hname instruction (List.mem_cons_self ..))
              rw [addPoints?, hpoint, Option.bind_eq_bind, Option.bind_some]
              exact ih (by simpa using hvocabulary) (by simpa using hsize) (by simpa using hpoints)
                (by simpa using htable)
                (fun item hitem => hbounded item (List.mem_cons_of_mem _ hitem))
                (fun other hother => hname other (List.mem_cons_of_mem _ hother))

end Known

section Analysed

variable {function : Function} {result : Liveness}

/-- **Building the graph never fails**: no name is without a number, no number without a row, and no
instruction without a point. -/
theorem ofLiveness?_eq (h : result.Analysed function) :
    ofLiveness? result = some (ofLiveness result) := by
  have hregister : ∀ name ∈ Register.generalPurpose, name ∈ result.vocabulary.names := by
    intro name hname
    rw [h.vocabulary_eq, Vocabulary.ofFunction, Vocabulary.mem_names_ofVariables]
    exact Or.inl hname
  have hregisters : result.vocabulary.set Register.generalPurpose =
      .ok result.vocabulary.registers := by
    apply set_eq_ok hregister
    intro i
    rw [exists_index?_iff h.nodup, Vocabulary.mem_registers]
  have hunshiftable : result.vocabulary.set
      (Register.generalPurpose.filter (· != Register.shiftAmount)) =
      .ok result.vocabulary.unshiftable := by
    apply set_eq_ok fun name hname => hregister name (List.mem_of_mem_filter hname)
    intro i
    rw [exists_index?_iff h.nodup, mem_unshiftable, List.mem_filter, bne_iff_ne]
  have hclique : (edgeless result.vocabulary).addClique? result.vocabulary.registers =
      some (edgeless result.vocabulary).addRegisters := by
    apply addClique?_eq
    intro i hi
    rw [size_edgeless]
    exact (Vocabulary.mem_registers.1 hi).1
  simp only [ofLiveness?, hregisters, hunshiftable, Except.toOption, hclique, Option.bind_eq_bind,
    Option.bind_some]
  rw [ofLiveness_eq]
  refine addPoints?_eq (vocabulary_addRegisters _) (size_addRegisters _) ?_ ?_
    (fun item hitem => itemBounded_of_mem h hitem) ?_
  · rw [h.function_eq, h.describes.length_eq]
  · rw [h.function_eq, h.length_live]
  · intro instruction hmem name hshift
    rw [h.function_eq] at hmem
    exact h.known instruction hmem name (Or.inl (Instruction.shiftName?_mem_gen hshift))

/-- What clashes at an instruction, in terms of what the analysis says is live there. -/
theorem exists_clash_iff (h : result.Analysed function) {u w : Name} :
    (∃ i instruction, function.code[i]? = some instruction ∧
      Clash function.code i instruction u w) ↔
      (∃ i < function.code.length, u ∈ result.liveBefore i ∧ w ∈ result.liveBefore i) ∨
      (∃ i < function.code.length, u ∈ result.liveAfter i ∧ w ∈ result.liveAfter i) ∨
      (∃ i < function.code.length, (u ∈ function.killAt i ∧ w ∈ result.liveAfter i) ∨
        (w ∈ function.killAt i ∧ u ∈ result.liveAfter i)) ∨
      ∃ op target amount, .shift op target amount ∈ function.code ∧
        ((amount.name? = some u ∧ w ∈ Register.generalPurpose ∧ w ≠ Register.shiftAmount) ∨
          (amount.name? = some w ∧ u ∈ Register.generalPurpose ∧ u ≠ Register.shiftAmount)) := by
  simp only [h.mem_liveBefore, h.mem_liveAfter]
  have hsome : ∀ {i : Nat}, i < function.code.length →
      ∃ instruction, function.code[i]? = some instruction := fun hi =>
    ⟨_, List.getElem?_eq_getElem hi⟩
  constructor
  · rintro ⟨i, instruction, hi, hclash⟩
    have hlt := (List.getElem?_eq_some_iff.1 hi).1
    rcases hclash with hboth | hboth | ⟨hu, hw⟩ | ⟨hu, hw⟩ | hshift | hshift
    · exact Or.inl ⟨i, hlt, hboth⟩
    · exact Or.inr (Or.inl ⟨i, hlt, hboth⟩)
    · exact Or.inr (Or.inr (Or.inl ⟨i, hlt, Or.inl ⟨(Function.killAt_eq hi).symm ▸ hu, hw⟩⟩))
    · exact Or.inr (Or.inr (Or.inl ⟨i, hlt, Or.inr ⟨(Function.killAt_eq hi).symm ▸ hw, hu⟩⟩))
    · obtain ⟨op, target, amount, rfl, hu⟩ := Instruction.shiftName?_eq_some_iff.1 hshift.1
      exact Or.inr (Or.inr (Or.inr
        ⟨op, target, amount, List.mem_of_getElem? hi, Or.inl ⟨hu, hshift.2⟩⟩))
    · obtain ⟨op, target, amount, rfl, hw⟩ := Instruction.shiftName?_eq_some_iff.1 hshift.1
      exact Or.inr (Or.inr (Or.inr
        ⟨op, target, amount, List.mem_of_getElem? hi, Or.inr ⟨hw, hshift.2⟩⟩))
  · rintro (⟨i, hlt, hboth⟩ | ⟨i, hlt, hboth⟩ | ⟨i, hlt, hkill⟩ |
      ⟨op, target, amount, hmem, hshift⟩)
    · obtain ⟨instruction, hi⟩ := hsome hlt
      exact ⟨i, instruction, hi, Or.inl hboth⟩
    · obtain ⟨instruction, hi⟩ := hsome hlt
      exact ⟨i, instruction, hi, Or.inr (Or.inl hboth)⟩
    · obtain ⟨instruction, hi⟩ := hsome hlt
      rw [Function.killAt_eq hi] at hkill
      refine ⟨i, instruction, hi, Or.inr (Or.inr ?_)⟩
      rcases hkill with ⟨hu, hw⟩ | ⟨hw, hu⟩
      · exact Or.inl ⟨hu, hw⟩
      · exact Or.inr (Or.inl ⟨hu, hw⟩)
    · obtain ⟨i, hi⟩ := List.mem_iff_getElem?.1 hmem
      exact ⟨i, _, hi, Or.inr (Or.inr (Or.inr (Or.inr hshift)))⟩

/-- **The conflict graph has exactly these edges.**  Two names conflict if they are different and
both are general purpose registers; or both are live before the same instruction, or after it; or one
is overwritten by an instruction and the other live after it; or one is the amount of a shift and the
other a general purpose register that cannot hold an amount.  Conflicts go both ways, no name
conflicts with itself, and building the graph never fails. -/
theorem conflict_edges_exact (hanalyse : Liveness.analyse function = .ok result) :
    (∀ u ∈ result.vocabulary.names, ∀ w ∈ result.vocabulary.names,
      ((ofLiveness result).interferes u w = true ↔ u ≠ w ∧
        ((u ∈ Register.generalPurpose ∧ w ∈ Register.generalPurpose) ∨
          (∃ i < function.code.length, u ∈ result.liveBefore i ∧ w ∈ result.liveBefore i) ∨
          (∃ i < function.code.length, u ∈ result.liveAfter i ∧ w ∈ result.liveAfter i) ∨
          (∃ i < function.code.length, (u ∈ function.killAt i ∧ w ∈ result.liveAfter i) ∨
            (w ∈ function.killAt i ∧ u ∈ result.liveAfter i)) ∨
          ∃ op target amount, .shift op target amount ∈ function.code ∧
            ((amount.name? = some u ∧ w ∈ Register.generalPurpose ∧ w ≠ Register.shiftAmount) ∨
              (amount.name? = some w ∧ u ∈ Register.generalPurpose ∧
                u ≠ Register.shiftAmount))))) ∧
    (∀ u w, (ofLiveness result).interferes u w = (ofLiveness result).interferes w u) ∧
    (∀ u, (ofLiveness result).interferes u u = false) ∧
    ofLiveness? result = some (ofLiveness result) := by
  have hresult := Liveness.analysed_of_analyse hanalyse
  have hsimple := simple_ofLiveness hresult
  refine ⟨?_, hsimple.interferes_comm, hsimple.interferes_self, ofLiveness?_eq hresult⟩
  intro u hu w hw
  rw [interferes_iff hresult, Conflict, exists_clash_iff hresult]
  simp only [hu, hw, true_and]

/-- The example of two variables, one shifted by the other: they are live together, and the amount
conflicts with every register but the one for amounts. -/
theorem shifting_conflict_edges :
    ∃ result, Liveness.analyse shifting = .ok result ∧
      (ofLiveness result).interferes "%amount" "%value" = true ∧
      (ofLiveness result).interferes "%amount" "rax" = true ∧
      (ofLiveness result).interferes "%amount" "rcx" = false ∧
      ofLiveness? result = some (ofLiveness result) := by
  have hedges := conflict_edges_exact (show Liveness.analyse shifting = .ok _ from rfl)
  refine ⟨_, rfl, ?_, ?_, by decide +kernel, hedges.2.2.2⟩
  · refine (hedges.1 _ (by decide +kernel) _ (by decide +kernel)).2 ⟨by decide, Or.inr (Or.inl ?_)⟩
    exact ⟨2, by decide, by decide +kernel, by decide +kernel⟩
  · refine (hedges.1 _ (by decide +kernel) _ (by decide +kernel)).2 ⟨by decide, ?_⟩
    exact Or.inr (Or.inr (Or.inr (Or.inr ⟨.left, .var "value", .var "amount", by decide,
      Or.inl ⟨rfl, by decide, by decide⟩⟩)))

end Analysed

end Graph

end RegisterColouring
