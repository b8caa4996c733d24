/-
**The conflicts of a function, exactly.**

A conflict graph stays symmetric and without loops whatever edges are added to it.  The graph that
is built from the liveness of a function joins two names exactly if both are general purpose
registers, or both are live at the same place, or one is overwritten where the other is live
afterwards, or one is the amount of a shift and the other a register that cannot hold an amount.

Main definitions:

* `RegisterColouring.Graph.Simple` — symmetric, and without loops;
* `RegisterColouring.Clash`, `RegisterColouring.Conflict` — why two names conflict, stated on the
  code.

Main results:

* `RegisterColouring.Graph.Simple.addClique`, `RegisterColouring.Graph.Simple.addBiclique`,
  `RegisterColouring.Graph.simple_ofLiveness` — conflict graphs are simple;
* `RegisterColouring.Graph.mem_row_ofLiveness`, `RegisterColouring.Graph.interferes_iff` — **the
  conflicts of a function**, by number and by name.
-/

import RegisterColouring.Conflict.Interference
import RegisterColouring.Proofs.LiveNames

set_option autoImplicit false

namespace RegisterColouring

namespace Graph

/-! ### Simple graphs -/

/-- A graph with one row for each name, symmetric and without loops. -/
structure Simple (graph : Graph) : Prop where
  size_eq : graph.size = graph.vocabulary.size
  symm : ∀ i j, j ∈ graph.row i → i ∈ graph.row j
  irrefl : ∀ i, i ∉ graph.row i

variable {graph : Graph} {i j : Nat}

theorem lt_of_mem_row (h : j ∈ graph.row i) : i < graph.size := by
  by_contra hge
  have hnone : graph.rows[i]? = none := List.getElem?_eq_none_iff.2 (Nat.le_of_not_lt hge)
  simp [row, hnone] at h

theorem Simple.lt (hsimple : graph.Simple) (h : j ∈ graph.row i) : j < graph.size :=
  lt_of_mem_row (hsimple.symm i j h)

theorem Simple.extend (hsimple : graph.Simple) {more : Nat → IndexSet}
    (hmore : ∀ i j, j ∈ more i → i ∈ more j) (hlt : ∀ i j, j ∈ more i → i < graph.size) :
    (graph.extend more).Simple := by
  refine ⟨by rw [size_extend, vocabulary_extend, hsimple.size_eq], ?_, ?_⟩
  · intro i j h
    have hi : i < graph.size := by simpa using lt_of_mem_row h
    rw [mem_row_extend hi] at h
    obtain ⟨h | h, hne⟩ := h
    · rw [mem_row_extend (hsimple.lt h)]
      exact ⟨Or.inl (hsimple.symm i j h), Ne.symm hne⟩
    · rw [mem_row_extend (hlt j i (hmore i j h))]
      exact ⟨Or.inr (hmore i j h), Ne.symm hne⟩
  · intro i h
    have hi : i < graph.size := by simpa using lt_of_mem_row h
    exact ((mem_row_extend hi).1 h).2 rfl

theorem Simple.addClique (hsimple : graph.Simple) {nodes : IndexSet}
    (hnodes : ∀ i ∈ nodes, i < graph.size) : (graph.addClique nodes).Simple := by
  have hmem : ∀ i j, j ∈ (if i ∈ nodes then nodes else ∅) ↔ i ∈ nodes ∧ j ∈ nodes := by
    intro i j
    split <;> simp_all
  apply hsimple.extend
  · intro i j h
    rw [hmem] at h ⊢
    exact h.symm
  · intro i j h
    exact hnodes i ((hmem i j).1 h).1

theorem Simple.addBiclique (hsimple : graph.Simple) {left right : IndexSet}
    (hleft : ∀ i ∈ left, i < graph.size) (hright : ∀ i ∈ right, i < graph.size) :
    (graph.addBiclique left right).Simple := by
  have hmem : ∀ i j, j ∈ (if i ∈ left then right else ∅) ∪ (if i ∈ right then left else ∅) ↔
      (i ∈ left ∧ j ∈ right) ∨ (i ∈ right ∧ j ∈ left) := by
    intro i j
    rw [IndexSet.mem_union]
    split <;> split <;> simp_all
  apply hsimple.extend
  · intro i j h
    rw [hmem] at h ⊢
    tauto
  · intro i j h
    rcases (hmem i j).1 h with h | h
    · exact hleft i h.1
    · exact hright i h.1

theorem Simple.interferes_self (hsimple : graph.Simple) (name : Name) :
    graph.interferes name name = false := by
  unfold interferes
  split
  · next i j hi hj =>
    obtain rfl : i = j := Option.some_inj.1 (hi.symm.trans hj)
    exact decide_eq_false (hsimple.irrefl i)
  · rfl

theorem Simple.interferes_comm (hsimple : graph.Simple) (left right : Name) :
    graph.interferes left right = graph.interferes right left := by
  unfold interferes
  cases hi : graph.vocabulary.index? left with
  | none => cases graph.vocabulary.index? right <;> rfl
  | some i =>
      cases hj : graph.vocabulary.index? right with
      | none => rfl
      | some j => exact decide_eq_decide.2 ⟨hsimple.symm i j, hsimple.symm j i⟩

theorem simple_edgeless (vocabulary : Vocabulary) : (edgeless vocabulary).Simple := by
  have hrow : ∀ i j, j ∉ (edgeless vocabulary).row i := by
    intro i j h
    have hi := lt_of_mem_row h
    rw [size_edgeless] at hi
    simp [row, edgeless, hi] at h
  exact ⟨size_edgeless vocabulary, fun i j h => absurd h (hrow i j), fun i => hrow i i⟩

/-! ### Edges -/

theorem mem_row_addClique {nodes : IndexSet} (hi : i < graph.size) (hne : j ≠ i) :
    j ∈ (graph.addClique nodes).row i ↔ j ∈ graph.row i ∨ (i ∈ nodes ∧ j ∈ nodes) := by
  rw [addClique, mem_row_extend hi]
  split <;> simp_all

theorem mem_row_addBiclique {left right : IndexSet} (hi : i < graph.size) (hne : j ≠ i) :
    j ∈ (graph.addBiclique left right).row i ↔
      j ∈ graph.row i ∨ (i ∈ left ∧ j ∈ right) ∨ (i ∈ right ∧ j ∈ left) := by
  rw [addBiclique, mem_row_extend hi, IndexSet.mem_union]
  split <;> split <;> simp_all

@[simp] theorem size_addClique (nodes : IndexSet) : (graph.addClique nodes).size = graph.size := by
  simp [addClique]

@[simp] theorem size_addBiclique (left right : IndexSet) :
    (graph.addBiclique left right).size = graph.size := by
  simp [addBiclique]

@[simp] theorem vocabulary_addClique (nodes : IndexSet) :
    (graph.addClique nodes).vocabulary = graph.vocabulary := rfl

@[simp] theorem vocabulary_addBiclique (left right : IndexSet) :
    (graph.addBiclique left right).vocabulary = graph.vocabulary := rfl

@[simp] theorem size_addShift (instruction : Instruction) :
    (graph.addShift instruction).size = graph.size := by
  unfold addShift
  split <;> simp

@[simp] theorem vocabulary_addShift (instruction : Instruction) :
    (graph.addShift instruction).vocabulary = graph.vocabulary := by
  unfold addShift
  split <;> rfl

@[simp] theorem size_addPoint (instruction : Instruction) (point : Point) (live : Live) :
    (graph.addPoint instruction point live).size = graph.size := by
  simp [addPoint]

@[simp] theorem vocabulary_addPoint (instruction : Instruction) (point : Point) (live : Live) :
    (graph.addPoint instruction point live).vocabulary = graph.vocabulary := by
  simp [addPoint]

theorem mem_unshiftable {vocabulary : Vocabulary} :
    i ∈ vocabulary.unshiftable ↔ i < vocabulary.size ∧
      vocabulary.name i ∈ Register.generalPurpose ∧ vocabulary.name i ≠ Register.shiftAmount := by
  simp [Vocabulary.unshiftable, Vocabulary.isRegister]

/-- The conflicts that a shift adds. -/
def ShiftEdge (vocabulary : Vocabulary) (instruction : Instruction) (i j : Nat) : Prop :=
  ∃ name, instruction.shiftName? = some name ∧ vocabulary.index? name = some i ∧
    j ∈ vocabulary.unshiftable

theorem mem_row_addShift {instruction : Instruction} (hi : i < graph.size) (hne : j ≠ i) :
    j ∈ (graph.addShift instruction).row i ↔
      j ∈ graph.row i ∨ ShiftEdge graph.vocabulary instruction i j ∨
        ShiftEdge graph.vocabulary instruction j i := by
  have hbind : ∀ k, (∃ name, instruction.shiftName? = some name ∧
      graph.vocabulary.index? name = some k) ↔
      instruction.shiftName?.bind graph.vocabulary.index? = some k := by
    intro k
    rw [Option.bind_eq_some_iff]
  unfold addShift ShiftEdge
  simp only [← and_assoc, exists_and_right, hbind]
  cases hamount : instruction.shiftName?.bind graph.vocabulary.index? with
  | none => simp
  | some amount => simp [mem_row_addBiclique hi hne, and_comm, eq_comm]

/-- The conflicts that an instruction adds. -/
def PointEdge (vocabulary : Vocabulary) (instruction : Instruction) (point : Point) (live : Live)
    (i j : Nat) : Prop :=
  (i ∈ live.before ∧ j ∈ live.before) ∨ (i ∈ live.after ∧ j ∈ live.after) ∨
    (i ∈ point.kill ∧ j ∈ live.after) ∨ (i ∈ live.after ∧ j ∈ point.kill) ∨
    ShiftEdge vocabulary instruction i j ∨ ShiftEdge vocabulary instruction j i

theorem mem_row_addPoint {instruction : Instruction} {point : Point} {live : Live}
    (hi : i < graph.size) (hne : j ≠ i) :
    j ∈ (graph.addPoint instruction point live).row i ↔
      j ∈ graph.row i ∨ PointEdge graph.vocabulary instruction point live i j := by
  rw [addPoint, mem_row_addShift (by simpa using hi) hne,
    mem_row_addBiclique (by simpa using hi) hne,
    mem_row_addClique (by simpa using hi) hne, mem_row_addClique hi hne]
  simp only [vocabulary_addBiclique, vocabulary_addClique, PointEdge, or_assoc]

/-- The graph after the conflicts of some instructions. -/
def addPoints (graph : Graph) (items : List (Instruction × Point × Live)) : Graph :=
  items.foldl (fun graph (instruction, point, live) => graph.addPoint instruction point live) graph

theorem mem_row_addPoints {items : List (Instruction × Point × Live)} (hi : i < graph.size)
    (hne : j ≠ i) :
    j ∈ (graph.addPoints items).row i ↔ j ∈ graph.row i ∨
      ∃ item ∈ items, PointEdge graph.vocabulary item.1 item.2.1 item.2.2 i j := by
  induction items generalizing graph with
  | nil => simp [addPoints]
  | cons item items ih =>
      have hstep : graph.addPoints (item :: items) =
          (graph.addPoint item.1 item.2.1 item.2.2).addPoints items := rfl
      rw [hstep, ih (by simpa using hi), mem_row_addPoint hi hne, List.exists_mem_cons_iff,
        vocabulary_addPoint, or_assoc]

end Graph

/-! ### Conflicts on the code -/

theorem Instruction.shiftName?_eq_some_iff {instruction : Instruction} {name : Name} :
    instruction.shiftName? = some name ↔
      ∃ op target amount, instruction = .shift op target amount ∧ amount.name? = some name := by
  cases instruction <;> simp [Instruction.shiftName?]

/-- The amount of a shift is read. -/
theorem Instruction.shiftName?_mem_gen {instruction : Instruction} {name : Name}
    (h : instruction.shiftName? = some name) : name ∈ instruction.gen := by
  cases instruction with
  | shift op target amount =>
      have hname : amount.name? = some name := h
      simp [Instruction.gen, Instruction.effect, Item.names, hname]
  | _ => simp [Instruction.shiftName?] at h

/-- Why two names conflict at one instruction. -/
def Clash (code : List Instruction) (i : Nat) (instruction : Instruction) (u w : Name) : Prop :=
  (LiveAt code u i ∧ LiveAt code w i) ∨ (LiveAfter code u i ∧ LiveAfter code w i) ∨
    (u ∈ instruction.kill ∧ LiveAfter code w i) ∨ (LiveAfter code u i ∧ w ∈ instruction.kill) ∨
    (instruction.shiftName? = some u ∧ w ∈ Register.generalPurpose ∧ w ≠ Register.shiftAmount) ∨
    (instruction.shiftName? = some w ∧ u ∈ Register.generalPurpose ∧ u ≠ Register.shiftAmount)

/-- **Two names conflict**: both are general purpose registers, or they clash at an instruction. -/
def Conflict (code : List Instruction) (u w : Name) : Prop :=
  u ≠ w ∧ ((u ∈ Register.generalPurpose ∧ w ∈ Register.generalPurpose) ∨
    ∃ i instruction, code[i]? = some instruction ∧ Clash code i instruction u w)

namespace Graph

variable {function : Function} {result : Liveness} {u w : Name} {a b : Nat}

theorem mem_items_iff {code : List Instruction} {points : List Point} {live : List Live}
    {item : Instruction × Point × Live} :
    item ∈ code.zip (points.zip live) ↔ ∃ i : Nat, code[i]? = some item.1 ∧
      points[i]? = some item.2.1 ∧ live[i]? = some item.2.2 := by
  rw [List.mem_iff_getElem?]
  refine exists_congr fun i => ?_
  rw [List.getElem?_zip_eq_some, List.getElem?_zip_eq_some]

/-- What an instruction adds to the graph is what clashes there. -/
theorem pointEdge_iff (h : result.Analysed function) {i : Nat} {instruction : Instruction}
    {point : Point} {live : Live} (hi : function.code[i]? = some instruction)
    (hpoint : result.points[i]? = some point) (hlive : result.live[i]? = some live)
    (ha : result.vocabulary.index? u = some a) (hb : result.vocabulary.index? w = some b) :
    PointEdge result.vocabulary instruction point live a b ↔
      Clash function.code i instruction u w := by
  have hbefore : ∀ name k, result.vocabulary.index? name = some k →
      (k ∈ live.before ↔ LiveAt function.code name i) := by
    intro name k hk
    rw [← h.mem_before name k i hk, Liveness.before_eq hlive]
  have hafter : ∀ name k, result.vocabulary.index? name = some k →
      (k ∈ live.after ↔ LiveAfter function.code name i) := by
    intro name k hk
    rw [← h.mem_after name k i hk, Liveness.after_eq hlive]
  have hkill := h.describes.kill i point instruction hpoint hi
  have hshift : ∀ {u w : Name} {a b : Nat}, result.vocabulary.index? u = some a →
      result.vocabulary.index? w = some b →
      (ShiftEdge result.vocabulary instruction a b ↔ instruction.shiftName? = some u ∧
        w ∈ Register.generalPurpose ∧ w ≠ Register.shiftAmount) := by
    intro u w a b ha hb
    rw [ShiftEdge, mem_unshiftable, Vocabulary.name_of_index? hb]
    constructor
    · rintro ⟨name, hname, hnamea, -, hw⟩
      rw [← Vocabulary.name_of_index? ha, Vocabulary.name_of_index? hnamea]
      exact ⟨hname, hw⟩
    · rintro ⟨hu, hw⟩
      exact ⟨u, hu, ha, Vocabulary.lt_of_index? hb, hw⟩
  rw [PointEdge, Clash, hbefore u a ha, hbefore w b hb, hafter u a ha, hafter w b hb, hkill u a ha,
    hkill w b hb, hshift ha hb, hshift hb ha]

theorem Simple.addShift {graph : Graph} (hsimple : graph.Simple) (instruction : Instruction) :
    (graph.addShift instruction).Simple := by
  unfold Graph.addShift
  split
  · next amount hamount =>
    obtain ⟨name, -, hname⟩ := Option.bind_eq_some_iff.1 hamount
    apply hsimple.addBiclique
    · intro i hi
      rw [IndexSet.mem_singleton.1 hi, hsimple.size_eq]
      exact Vocabulary.lt_of_index? hname
    · intro i hi
      rw [hsimple.size_eq]
      exact (mem_unshiftable.1 hi).1
  · exact hsimple

/-- The sets of an instruction are sets of numbers below a bound. -/
def ItemBounded (size : Nat) (item : Instruction × Point × Live) : Prop :=
  (∀ k ∈ item.2.2.before, k < size) ∧ (∀ k ∈ item.2.2.after, k < size) ∧
    ∀ k ∈ item.2.1.kill, k < size

theorem Simple.addPoints {graph : Graph} (hsimple : graph.Simple)
    {items : List (Instruction × Point × Live)}
    (hitems : ∀ item ∈ items, ItemBounded graph.size item) :
    (graph.addPoints items).Simple := by
  induction items generalizing graph with
  | nil => exact hsimple
  | cons item items ih =>
      obtain ⟨hbefore, hafter, hkill⟩ := hitems item (List.mem_cons_self ..)
      have hpoint : (graph.addPoint item.1 item.2.1 item.2.2).Simple := by
        apply Simple.addShift
        apply Simple.addBiclique
        · exact (hsimple.addClique hbefore).addClique (by simpa using hafter)
        · simpa using hkill
        · simpa using hafter
      apply ih hpoint
      intro other hother
      rw [size_addPoint]
      exact hitems other (List.mem_cons_of_mem _ hother)

theorem ofLiveness_eq (result : Liveness) :
    ofLiveness result = (edgeless result.vocabulary).addRegisters.addPoints
      (result.function.code.zip (result.points.zip result.live)) := rfl

theorem simple_addRegisters (vocabulary : Vocabulary) :
    (edgeless vocabulary).addRegisters.Simple := by
  apply (simple_edgeless vocabulary).addClique
  intro i hi
  rw [size_edgeless]
  exact (Vocabulary.mem_registers.1 hi).1

@[simp] theorem size_addRegisters (vocabulary : Vocabulary) :
    (edgeless vocabulary).addRegisters.size = vocabulary.size := by
  simp [addRegisters]

@[simp] theorem vocabulary_addRegisters (vocabulary : Vocabulary) :
    (edgeless vocabulary).addRegisters.vocabulary = vocabulary := rfl

@[simp] theorem vocabulary_ofLiveness (result : Liveness) :
    (ofLiveness result).vocabulary = result.vocabulary := by
  have hfold : ∀ (items : List (Instruction × Point × Live)) (graph : Graph),
      (graph.addPoints items).vocabulary = graph.vocabulary := by
    intro items
    induction items with
    | nil => intro graph; rfl
    | cons item items ih =>
        intro graph
        exact (ih _).trans (vocabulary_addPoint item.1 item.2.1 item.2.2)
  rw [ofLiveness_eq, hfold, vocabulary_addRegisters]

/-- The sets that the analysis gives for an instruction are sets of numbers of the vocabulary. -/
theorem itemBounded_of_mem (h : result.Analysed function) {item : Instruction × Point × Live}
    (hitem : item ∈ result.function.code.zip (result.points.zip result.live)) :
    ItemBounded result.vocabulary.size item := by
  obtain ⟨i, hi, hpoint, hlive⟩ := mem_items_iff.1 hitem
  rw [h.function_eq] at hi
  refine ⟨?_, ?_, ?_⟩
  · intro k hk
    apply h.bounded i k
    rw [Liveness.before_eq hlive]
    exact Or.inl hk
  · intro k hk
    apply h.bounded i k
    rw [Liveness.after_eq hlive]
    exact Or.inr hk
  · exact h.kill_lt item.2.1 (List.mem_of_getElem? hpoint)

/-- **The conflict graph of a function is simple.** -/
theorem simple_ofLiveness (h : result.Analysed function) : (ofLiveness result).Simple := by
  rw [ofLiveness_eq]
  apply (simple_addRegisters result.vocabulary).addPoints
  intro item hitem
  rw [size_addRegisters]
  exact itemBounded_of_mem h hitem

/-- **The conflicts of a function, by number.** -/
theorem mem_row_ofLiveness (h : result.Analysed function)
    (ha : result.vocabulary.index? u = some a) (hb : result.vocabulary.index? w = some b) :
    b ∈ (ofLiveness result).row a ↔ Conflict function.code u w := by
  have halt := Vocabulary.lt_of_index? ha
  by_cases hne : u = w
  · subst hne
    rw [ha, Option.some_inj] at hb
    subst hb
    exact ⟨fun hmem => absurd hmem ((simple_ofLiveness h).irrefl a), fun hc => absurd rfl hc.1⟩
  · have hba : b ≠ a := by
      rintro rfl
      exact hne (by rw [← Vocabulary.name_of_index? ha, Vocabulary.name_of_index? hb])
    have hempty : b ∉ (edgeless result.vocabulary).row a := by
      simp [row, edgeless, halt]
    rw [ofLiveness_eq, mem_row_addPoints (by simpa using halt) hba, addRegisters,
      mem_row_addClique (by simpa using halt) hba]
    simp only [hempty, false_or]
    rw [vocabulary_addClique,
      show (edgeless result.vocabulary).vocabulary = result.vocabulary from rfl,
      Vocabulary.mem_registers, Vocabulary.mem_registers, Vocabulary.name_of_index? ha,
      Vocabulary.name_of_index? hb, Conflict]
    simp only [halt, Vocabulary.lt_of_index? hb, true_and, ne_eq, hne, not_false_eq_true]
    -- other edges come from the instructions
    apply or_congr Iff.rfl
    constructor
    · rintro ⟨item, hitem, hedge⟩
      obtain ⟨i, hi, hpoint, hlive⟩ := mem_items_iff.1 hitem
      rw [h.function_eq] at hi
      exact ⟨i, item.1, hi, (pointEdge_iff h hi hpoint hlive ha hb).1 hedge⟩
    · rintro ⟨i, instruction, hi, hclash⟩
      have hlt := (List.getElem?_eq_some_iff.1 hi).1
      have hpoint := List.getElem?_eq_getElem (h.describes.length_eq ▸ hlt)
      have hlive := List.getElem?_eq_getElem (h.length_live ▸ hlt)
      refine ⟨(instruction, _, _), mem_items_iff.2 ⟨i, ?_, hpoint, hlive⟩,
        (pointEdge_iff h hi hpoint hlive ha hb).2 hclash⟩
      rwa [h.function_eq]

/-- **The conflicts of a function, by name.** -/
theorem interferes_iff (h : result.Analysed function) :
    (ofLiveness result).interferes u w = true ↔
      u ∈ result.vocabulary.names ∧ w ∈ result.vocabulary.names ∧ Conflict function.code u w := by
  unfold interferes
  rw [vocabulary_ofLiveness]
  cases ha : result.vocabulary.index? u with
  | none => simp [Vocabulary.index?_eq_none_iff.1 ha]
  | some a =>
      cases hb : result.vocabulary.index? w with
      | none => simp [Vocabulary.index?_eq_none_iff.1 hb]
      | some b =>
          simp [mem_row_ofLiveness h ha hb, Vocabulary.mem_of_index? ha,
            Vocabulary.mem_of_index? hb]

end Graph

end RegisterColouring
