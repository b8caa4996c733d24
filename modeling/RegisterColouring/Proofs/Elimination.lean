/-
**The order of elimination.**

Every variable of a conflict graph is removed once.  Each removal records the number of neighbours
that are still present.  A variable is removed with too many of them only if every variable that is
left has too many, and a variable that cannot be spilled only if none that is left can be.

Main definitions:

* `RegisterColouring.Graph.Stage` — what is known when a variable is removed.

Main results:

* `RegisterColouring.choose_le` — the chosen element is a best one;
* `RegisterColouring.Graph.eliminate_perm` — every variable is removed once;
* `RegisterColouring.Graph.eliminate_stage` — **what is known at each removal**.
-/

import Mathlib.Data.List.Perm.Subperm
import RegisterColouring.Colouring.Elimination
import RegisterColouring.Proofs.Names

set_option autoImplicit false

namespace RegisterColouring

/-- If being better never increases a measure and not being better never decreases it, the chosen
element has the least measure. -/
theorem choose_le {α β : Type} [LE β] [Std.IsPreorder β] {better : α → α → Bool} (f : α → β)
    (htrue : ∀ a b, better a b = true → f a ≤ f b) (hfalse : ∀ a b, better a b = false → f b ≤ f a)
    (best : α) (list : List α) : ∀ a ∈ best :: list, f (choose better best list) ≤ f a := by
  induction list generalizing best with
  | nil =>
      intro a ha
      rw [List.mem_singleton.1 ha]
      exact Std.le_refl _
  | cons b rest ih =>
      have hboth : f (if better b best then b else best) ≤ f b ∧
          f (if better b best then b else best) ≤ f best := by
        cases hb : better b best with
        | true => exact ⟨Std.le_refl _, htrue b best hb⟩
        | false => exact ⟨hfalse b best hb, Std.le_refl _⟩
      have hleast := ih (if better b best then b else best)
      have hfirst := hleast _ (List.mem_cons_self ..)
      rw [choose]
      intro a ha
      rcases List.mem_cons.1 ha with rfl | ha
      · exact Std.le_trans hfirst hboth.2
      · rcases List.mem_cons.1 ha with rfl | ha
        · exact Std.le_trans hfirst hboth.1
        · exact hleast a (List.mem_cons_of_mem _ ha)

namespace IndexSet

theorem nodup_toList (set : IndexSet) : set.toList.Nodup := List.nodup_range.filter _

/-- A set within a list is no larger than the list. -/
theorem size_le_of_subset {set : IndexSet} {list : List Nat} (h : ∀ i ∈ set, i ∈ list) :
    set.size ≤ list.length := by
  apply List.Subperm.length_le
  apply (nodup_toList set).subperm
  intro i hi
  exact h i (mem_toList.1 hi)

end IndexSet

namespace Graph

variable {graph : Graph} {options : ColouringOptions} {present : IndexSet}

/-! ### One removal -/

theorem choose_easier_le (graph : Graph) (present : IndexSet) (first : Nat) (rest : List Nat) :
    ∀ node ∈ first :: rest, graph.degreeIn present (choose (graph.easier present) first rest) ≤
      graph.degreeIn present node := by
  apply choose_le
  · intro i j h
    simp only [easier, Bool.or_eq_true, decide_eq_true_eq, Bool.and_eq_true, beq_iff_eq] at h
    omega
  · intro i j h
    simp only [easier, Bool.or_eq_false_iff, decide_eq_false_iff_not] at h
    omega

/-- If the worthiest variable cannot be spilled, none can. -/
theorem isSpillable_of_worthiest (first : Nat) (rest : List Nat)
    (h : graph.isSpillable options (choose (graph.worthier options present) first rest) = false) :
    ∀ node ∈ first :: rest, graph.isSpillable options node = false := by
  have hmeasure : ∀ i j, (graph.worthier options present i j = true →
      (graph.isSpillable options i).toNat ≥ (graph.isSpillable options j).toNat) ∧
      (graph.worthier options present i j = false →
        (graph.isSpillable options j).toNat ≥ (graph.isSpillable options i).toNat) := by
    intro i j
    simp only [worthier]
    cases graph.isSpillable options i <;> cases graph.isSpillable options j <;> simp
  have hleast : ∀ node ∈ first :: rest,
      1 - (graph.isSpillable options
        (choose (graph.worthier options present) first rest)).toNat ≤
        1 - (graph.isSpillable options node).toNat :=
    choose_le (fun node => 1 - (graph.isSpillable options node).toNat)
      (fun i j hij => by have := (hmeasure i j).1 hij; omega)
      (fun i j hij => by have := (hmeasure i j).2 hij; omega) first rest
  intro node hnode
  have hle := hleast node hnode
  cases hs : graph.isSpillable options node with
  | false => rfl
  | true => simp [h, hs] at hle

/-- **What is known when a variable is removed**, with the variables that are removed after it. -/
structure Stage (graph : Graph) (options : ColouringOptions) (present : IndexSet)
    (removal : Removal) (later : List Nat) : Prop where
  degree_eq : removal.degree = graph.degreeIn present removal.node
  hard : removal.isOptimistic = true → ∀ node ∈ removal.node :: later,
    Register.count ≤ graph.degreeIn present node
  stuck : removal.isOptimistic = true → graph.isSpillable options removal.node = false →
    ∀ node ∈ removal.node :: later, graph.isSpillable options node = false

theorem nextRemoval_mem (graph : Graph) (options : ColouringOptions) (present : IndexSet)
    (first : Nat) (rest : List Nat) :
    (graph.nextRemoval options present first rest).node ∈ first :: rest := by
  simp only [nextRemoval]
  split <;> exact choose_mem ..

theorem nextRemoval_stage {first : Nat} {rest later : List Nat}
    (hlater : ∀ node ∈ later, node ∈ first :: rest) :
    Stage graph options present (graph.nextRemoval options present first rest) later := by
  have hmem : ∀ node ∈ (graph.nextRemoval options present first rest).node :: later,
      node ∈ first :: rest := by
    intro node hnode
    rcases List.mem_cons.1 hnode with rfl | hnode
    · exact nextRemoval_mem ..
    · exact hlater node hnode
  -- a removal with too many neighbours is not the easiest one
  have heasiest : (graph.nextRemoval options present first rest).isOptimistic = true →
      ¬ graph.degreeIn present (choose (graph.easier present) first rest) < Register.count := by
    intro hoptimistic hlt
    simp only [Removal.isOptimistic, nextRemoval, if_pos hlt, decide_eq_true_eq] at hoptimistic
    omega
  refine ⟨rfl, ?_, ?_⟩
  · intro hoptimistic node hnode
    have hle := choose_easier_le graph present first rest node (hmem node hnode)
    have := heasiest hoptimistic
    omega
  · intro hoptimistic hstuck node hnode
    have hnext : (graph.nextRemoval options present first rest).node =
        choose (graph.worthier options present) first rest := by
      simp only [nextRemoval, if_neg (heasiest hoptimistic)]
    rw [hnext] at hstuck
    exact isSpillable_of_worthiest first rest hstuck node (hmem node hnode)

/-! ### All removals -/

theorem length_filter_ne {list : List Nat} {node : Nat} (hnodup : list.Nodup) (hmem : node ∈ list) :
    (list.filter (· != node)).length + 1 = list.length := by
  rw [← hnodup.erase_eq_filter, List.length_erase_of_mem hmem]
  have := List.length_pos_of_mem hmem
  omega

theorem eliminateFrom_perm {steps : Nat} {nodes : List Nat} (hnodup : nodes.Nodup)
    (hsteps : nodes.length ≤ steps) :
    ((graph.eliminateFrom options steps present nodes).map Removal.node).Perm nodes := by
  induction steps generalizing present nodes with
  | zero =>
      rw [List.length_eq_zero_iff.1 (Nat.le_zero.1 hsteps)]
      exact List.Perm.refl _
  | succ steps ih =>
      cases nodes with
      | nil => exact List.Perm.refl _
      | cons first rest =>
          have hmem := nextRemoval_mem graph options present first rest
          simp only [eliminateFrom, List.map_cons]
          have hlength := length_filter_ne hnodup hmem
          refine (List.Perm.cons _ (ih (hnodup.filter _) (by omega))).trans ?_
          rw [← hnodup.erase_eq_filter]
          exact (List.perm_cons_erase hmem).symm

theorem eliminateFrom_stage {steps : Nat} {nodes : List Nat} (hnodup : nodes.Nodup)
    (hsteps : nodes.length ≤ steps) {before later : List Removal} {removal : Removal}
    (h : graph.eliminateFrom options steps present nodes = before ++ removal :: later) :
    ∃ present', (∀ k, k ∈ present' ↔ k ∈ present ∧ k ∉ before.map Removal.node) ∧
      Stage graph options present' removal (later.map Removal.node) := by
  -- the induction is on what was removed before, so that the nodes that are present follow the run
  induction before generalizing steps present nodes with
  | nil =>
      cases steps with
      | zero => simp [eliminateFrom] at h
      | succ steps =>
          cases nodes with
          | nil => simp [eliminateFrom] at h
          | cons first rest =>
              have hmem := nextRemoval_mem graph options present first rest
              simp only [eliminateFrom, List.nil_append, List.cons.injEq] at h
              obtain ⟨rfl, rfl⟩ := h
              refine ⟨present, by simp, nextRemoval_stage ?_⟩
              intro node hnode
              have hlength := length_filter_ne hnodup hmem
              exact List.mem_of_mem_filter
                ((eliminateFrom_perm (hnodup.filter _) (by omega)).subset hnode)
  | cons earlier before ih =>
      cases steps with
      | zero => simp [eliminateFrom] at h
      | succ steps =>
          cases nodes with
          | nil => simp [eliminateFrom] at h
          | cons first rest =>
              have hmem := nextRemoval_mem graph options present first rest
              have hlength := length_filter_ne hnodup hmem
              simp only [eliminateFrom, List.cons_append, List.cons.injEq] at h
              obtain ⟨rfl, h⟩ := h
              obtain ⟨present', hpresent', hstage⟩ := ih (hnodup.filter _) (by omega) h
              refine ⟨present', ?_, hstage⟩
              intro k
              rw [hpresent', IndexSet.mem_erase, List.map_cons, List.mem_cons, not_or, and_assoc]

theorem nodup_variableNodes (graph : Graph) : graph.variableNodes.Nodup := List.nodup_range.filter _

/-- **Every variable is removed once.** -/
theorem eliminate_perm (graph : Graph) (options : ColouringOptions) :
    ((graph.eliminate options).map Removal.node).Perm graph.variableNodes :=
  eliminateFrom_perm graph.nodup_variableNodes (Nat.le_refl _)

/-- **What is known at each removal**: the nodes that are present are those that have not been
removed before. -/
theorem eliminate_stage {before later : List Removal} {removal : Removal}
    (h : graph.eliminate options = before ++ removal :: later) :
    ∃ present, (∀ k, k ∈ present ↔ k < graph.size ∧ k ∉ before.map Removal.node) ∧
      Stage graph options present removal (later.map Removal.node) := by
  obtain ⟨present, hpresent, hstage⟩ :=
    eliminateFrom_stage graph.nodup_variableNodes (Nat.le_refl _) h
  refine ⟨present, ?_, hstage⟩
  intro k
  rw [hpresent, IndexSet.mem_ofList, List.mem_range]

/-- A variable that has not been removed before is removed now or later. -/
theorem mem_later {before later : List Removal} {removal : Removal} {node : Nat}
    (h : graph.eliminate options = before ++ removal :: later) (hnode : node ∈ graph.variableNodes)
    (hbefore : node ∉ before.map Removal.node) : node ∈ removal.node :: later.map Removal.node := by
  have hmem := (graph.eliminate_perm options).symm.subset hnode
  rw [h, List.map_append, List.map_cons] at hmem
  exact (List.mem_append.1 hmem).resolve_left hbefore

end Graph

end RegisterColouring
