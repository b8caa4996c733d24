/-
**Colouring does not depend on the order of variables.**

The nodes of a conflict graph are numbered in the order of the variables.  Two graphs with the same
names and the same conflicts between names may number their nodes differently; each node of the one
has a twin of the same name in the other.  If the heuristic looks at degrees only, a choice between
nodes is a choice of the least key, where the key of a node is made from its degree, its name and
whether it can be spilled, none of which depends on its number.  Different nodes have different keys,
so the choice does not depend on the order in which nodes are looked at either, and the two graphs
are coloured in lockstep.

Main definitions:

* `RegisterColouring.Graph.Renumbered` — graphs with the same names and conflicts;
* `RegisterColouring.Graph.twin` — the node of the same name;
* `RegisterColouring.Graph.ease`, `RegisterColouring.Graph.worth` — the keys of nodes;
* `RegisterColouring.SameOutcome` — outcomes that are the same up to the order of variables.

Main results:

* `RegisterColouring.choose_twin` — choices of the least key agree;
* `RegisterColouring.Graph.Renumbered.eliminate_twin` — twins are removed in the same order;
* `RegisterColouring.Graph.Renumbered.selectFrom_twin` — and get the same colours;
* `RegisterColouring.Graph.colour_order_immaterial` — **the order of variables does not matter**.
-/

import Mathlib.Data.Prod.Lex
import Mathlib.Data.String.Basic
import RegisterColouring.Proofs.Outcomes

set_option autoImplicit false

namespace RegisterColouring

/-! ### Choices by key -/

section Keys

variable {α β γ : Type} [LinearOrder γ] {better : α → α → Bool} {better' : β → β → Bool}
  {key : α → γ} {key' : β → γ}

/-- A choice by key has the least one. -/
theorem key_choose_le (hbetter : ∀ a b, better a b = true ↔ key a < key b) (best : α)
    (list : List α) : ∀ a ∈ best :: list, key (choose better best list) ≤ key a := by
  refine choose_le key (fun a b h => ((hbetter a b).1 h).le) (fun a b h => ?_) best list
  rw [← not_lt, ← hbetter, h]
  exact Bool.false_ne_true

/-- **Choices of the least key agree** between two lists of twins, in whatever order. -/
theorem choose_twin {twin : α → β} {first : α} {rest : List α} {first' : β} {rest' : List β}
    (hbetter : ∀ a b, better a b = true ↔ key a < key b)
    (hbetter' : ∀ a b, better' a b = true ↔ key' a < key' b)
    (hperm : (first' :: rest').Perm ((first :: rest).map twin))
    (hkey : ∀ a ∈ first :: rest, key' (twin a) = key a)
    (hinj : ∀ a ∈ first :: rest, ∀ b ∈ first :: rest, key a = key b → a = b) :
    choose better' first' rest' = twin (choose better first rest) := by
  have hchosen := choose_mem better first rest
  obtain ⟨a, ha, htwin⟩ := List.mem_map.1 (hperm.subset (choose_mem better' first' rest'))
  have hle : key (choose better first rest) ≤ key a := key_choose_le hbetter first rest a ha
  have hge : key' (choose better' first' rest') ≤ key' (twin (choose better first rest)) :=
    key_choose_le hbetter' first' rest' _ (hperm.symm.subset (List.mem_map_of_mem hchosen))
  rw [← htwin, hkey a ha, hkey _ hchosen] at hge
  rw [← htwin, hinj a ha _ hchosen (le_antisymm hge hle)]

end Keys

/-- A removal of the node with another number. -/
def Removal.renumber (f : Nat → Nat) (removal : Removal) : Removal :=
  ⟨f removal.node, removal.degree⟩

@[simp] theorem Removal.node_renumber (f : Nat → Nat) (removal : Removal) :
    (removal.renumber f).node = f removal.node := rfl

@[simp] theorem Removal.isOptimistic_renumber (f : Nat → Nat) (removal : Removal) :
    (removal.renumber f).isOptimistic = removal.isOptimistic := rfl

namespace Graph

/-! ### The keys of nodes -/

/-- What decides which node is easiest to colour. -/
def ease (graph : Graph) (present : IndexSet) (i : Nat) : Nat ×ₗ Name :=
  toLex (graph.degreeIn present i, graph.vocabulary.name i)

/-- What decides which node is best set aside. -/
def worth (graph : Graph) (options : ColouringOptions) (present : IndexSet) (i : Nat) :
    Bool ×ₗ Natᵒᵈ ×ₗ Name :=
  toLex (!graph.isSpillable options i,
    toLex (OrderDual.toDual (graph.rank options present i), graph.vocabulary.name i))

variable {graph graph' : Graph} {options : ColouringOptions} {present present' : IndexSet}
  {i j k : Nat}

theorem easier_iff :
    graph.easier present i j = true ↔ graph.ease present i < graph.ease present j := by
  rw [ease, ease, Prod.Lex.toLex_lt_toLex, easier]
  simp only [Bool.or_eq_true, decide_eq_true_eq, Bool.and_eq_true, beq_iff_eq, precedes]

theorem worthier_iff :
    graph.worthier options present i j = true ↔
      graph.worth options present i < graph.worth options present j := by
  rw [worth, worth, Prod.Lex.toLex_lt_toLex, Prod.Lex.toLex_lt_toLex, worthier]
  cases graph.isSpillable options i <;> cases graph.isSpillable options j <;>
    simp [precedes]

/-! ### Twins -/

/-- **Graphs with the same names and the same conflicts between names**, whose nodes may be numbered
differently. -/
structure Renumbered (graph graph' : Graph) : Prop where
  simple : graph.Simple
  simple' : graph'.Simple
  nodup : graph.vocabulary.names.Nodup
  nodup' : graph'.vocabulary.names.Nodup
  mem_names : ∀ name, name ∈ graph.vocabulary.names ↔ name ∈ graph'.vocabulary.names
  interferes_eq : ∀ u w, graph.interferes u w = graph'.interferes u w

/-- The node of the same name in another graph. -/
def twin (graph graph' : Graph) (i : Nat) : Nat :=
  (graph'.vocabulary.index? (graph.vocabulary.name i)).getD 0

namespace Renumbered

section Twins

variable (h : Renumbered graph graph')

include h

theorem index?_twin (hi : i < graph.size) :
    graph'.vocabulary.index? (graph.vocabulary.name i) = some (graph.twin graph' i) := by
  have hmem := (h.mem_names _).1 (Vocabulary.name_mem (h.simple.size_eq ▸ hi))
  obtain ⟨k, hk⟩ := Vocabulary.exists_index? hmem
  rw [twin, hk, Option.getD_some]

theorem twin_lt (hi : i < graph.size) : graph.twin graph' i < graph'.size := by
  rw [h.simple'.size_eq]
  exact Vocabulary.lt_of_index? (h.index?_twin hi)

theorem name_twin (hi : i < graph.size) :
    graph'.vocabulary.name (graph.twin graph' i) = graph.vocabulary.name i :=
  Vocabulary.name_of_index? (h.index?_twin hi)

theorem name_inj (hi : i < graph.size) (hj : j < graph.size)
    (heq : graph.vocabulary.name i = graph.vocabulary.name j) : i = j :=
  (Vocabulary.name_inj h.nodup (h.simple.size_eq ▸ hi) (h.simple.size_eq ▸ hj)).1 heq

theorem twin_inj (hi : i < graph.size) (hj : j < graph.size) :
    graph.twin graph' i = graph.twin graph' j ↔ i = j := by
  constructor
  · intro heq
    refine h.name_inj hi hj ?_
    rw [← h.name_twin hi, ← h.name_twin hj, heq]
  · rintro rfl
    rfl

theorem exists_twin (hk : k < graph'.size) : ∃ i < graph.size, graph.twin graph' i = k := by
  rw [h.simple'.size_eq] at hk
  obtain ⟨i, hi⟩ := Vocabulary.exists_index? ((h.mem_names _).2 (Vocabulary.name_mem hk))
  have hlt : i < graph.size := h.simple.size_eq ▸ Vocabulary.lt_of_index? hi
  have htwin := h.index?_twin hlt
  rw [Vocabulary.name_of_index? hi, Vocabulary.index?_name h.nodup' hk] at htwin
  exact ⟨i, hlt, (Option.some.inj htwin).symm⟩

/-- Twins have twins for neighbours. -/
theorem mem_row_twin (hi : i < graph.size) (hj : j < graph.size) :
    graph.twin graph' j ∈ graph'.row (graph.twin graph' i) ↔ j ∈ graph.row i := by
  have hinterferes := h.interferes_eq (graph.vocabulary.name i) (graph.vocabulary.name j)
  simp only [interferes, h.index?_twin hi, h.index?_twin hj,
    Vocabulary.index?_name h.nodup (h.simple.size_eq ▸ hi),
    Vocabulary.index?_name h.nodup (h.simple.size_eq ▸ hj), decide_eq_decide] at hinterferes
  exact hinterferes.symm

/-- Two lists of nodes without repetitions, where the one has the twins of the other, are the same up
to order. -/
theorem perm_map_twin {nodes nodes' : List Nat} (hnodup : nodes.Nodup) (hnodup' : nodes'.Nodup)
    (hlt : ∀ i ∈ nodes, i < graph.size) (hlt' : ∀ k ∈ nodes', k < graph'.size)
    (hmem : ∀ i < graph.size, (graph.twin graph' i ∈ nodes' ↔ i ∈ nodes)) :
    nodes'.Perm (nodes.map (graph.twin graph')) := by
  have hmap : (nodes.map (graph.twin graph')).Nodup :=
    List.Nodup.map_on (fun i hi j hj => (h.twin_inj (hlt i hi) (hlt j hj)).1) hnodup
  refine (List.perm_ext_iff_of_nodup hnodup' hmap).2 fun k => ?_
  rw [List.mem_map]
  constructor
  · intro hk
    obtain ⟨i, hi, rfl⟩ := h.exists_twin (hlt' k hk)
    exact ⟨i, (hmem i hi).1 hk, rfl⟩
  · rintro ⟨i, hi, rfl⟩
    exact (hmem i (hlt i hi)).2 hi

theorem perm_variableNodes :
    graph'.variableNodes.Perm (graph.variableNodes.map (graph.twin graph')) := by
  refine h.perm_map_twin graph.nodup_variableNodes graph'.nodup_variableNodes
    (fun i hi => (mem_variableNodes.1 hi).1) (fun k hk => (mem_variableNodes.1 hk).1) ?_
  intro i hi
  rw [mem_variableNodes, mem_variableNodes, h.name_twin hi, and_iff_right (h.twin_lt hi),
    and_iff_right hi]

/-! ### Elimination -/

variable (hpresent : ∀ i < graph.size, (graph.twin graph' i ∈ present' ↔ i ∈ present))

include hpresent

theorem degreeIn_twin (hi : i < graph.size) :
    graph'.degreeIn present' (graph.twin graph' i) = graph.degreeIn present i := by
  have hperm := h.perm_map_twin
    (IndexSet.nodup_toList (graph.row i ∩ present))
    (IndexSet.nodup_toList (graph'.row (graph.twin graph' i) ∩ present'))
    (fun j hj => h.simple.lt (IndexSet.mem_inter.1 (IndexSet.mem_toList.1 hj)).1)
    (fun k hk => h.simple'.lt (IndexSet.mem_inter.1 (IndexSet.mem_toList.1 hk)).1)
    (fun j hj => by
      rw [IndexSet.mem_toList, IndexSet.mem_toList, IndexSet.mem_inter, IndexSet.mem_inter,
        h.mem_row_twin hi hj, hpresent j hj])
  have hlength := hperm.length_eq
  rwa [List.length_map] at hlength

theorem ease_twin (hi : i < graph.size) :
    graph'.ease present' (graph.twin graph' i) = graph.ease present i := by
  rw [ease, ease, h.degreeIn_twin hpresent hi, h.name_twin hi]

variable (hheuristic : options.heuristic = .highestDegree)

include hheuristic

theorem worth_twin (hi : i < graph.size) :
    graph'.worth options present' (graph.twin graph' i) = graph.worth options present i := by
  rw [worth, worth, isSpillable, isSpillable, rank, rank, hheuristic, h.degreeIn_twin hpresent hi,
    h.name_twin hi]

/-- **Twins are removed next.** -/
theorem nextRemoval_twin {first first' : Nat} {rest rest' : List Nat}
    (hlt : ∀ i ∈ first :: rest, i < graph.size)
    (hperm : (first' :: rest').Perm ((first :: rest).map (graph.twin graph'))) :
    graph'.nextRemoval options present' first' rest' =
      (graph.nextRemoval options present first rest).renumber (graph.twin graph') := by
  have heasiest : choose (graph'.easier present') first' rest' =
      graph.twin graph' (choose (graph.easier present) first rest) := by
    refine choose_twin (fun _ _ => easier_iff) (fun _ _ => easier_iff) hperm
      (fun i hi => h.ease_twin hpresent (hlt i hi)) fun i hi j hj heq => ?_
    exact h.name_inj (hlt i hi) (hlt j hj) (congrArg (fun key => (ofLex key).2) heq)
  have hworthiest : choose (graph'.worthier options present') first' rest' =
      graph.twin graph' (choose (graph.worthier options present) first rest) := by
    refine choose_twin (fun _ _ => worthier_iff) (fun _ _ => worthier_iff) hperm
      (fun i hi => h.worth_twin hpresent hheuristic (hlt i hi)) fun i hi j hj heq => ?_
    exact h.name_inj (hlt i hi) (hlt j hj) (congrArg (fun key => (ofLex (ofLex key).2).2) heq)
  have hdegree := fun {i} hi => h.degreeIn_twin hpresent (hlt i hi)
  simp only [nextRemoval, heasiest, hworthiest, hdegree (choose_mem _ first rest)]
  split
  · rw [Removal.renumber, hdegree (choose_mem _ first rest)]
  · rw [Removal.renumber, hdegree (choose_mem _ first rest)]

end Twins

/-- Twins are removed one after the other, as long as the remaining nodes of the one graph are the
twins of those of the other. -/
theorem eliminateFrom_twin (h : Renumbered graph graph')
    (hheuristic : options.heuristic = .highestDegree) (steps : Nat)
    (hpresent : ∀ i < graph.size, (graph.twin graph' i ∈ present' ↔ i ∈ present))
    {nodes nodes' : List Nat} (hlt : ∀ i ∈ nodes, i < graph.size)
    (hperm : nodes'.Perm (nodes.map (graph.twin graph'))) :
    graph'.eliminateFrom options steps present' nodes' =
      (graph.eliminateFrom options steps present nodes).map
        (Removal.renumber (graph.twin graph')) := by
  induction steps generalizing present present' nodes nodes' with
  | zero => rfl
  | succ steps ih =>
      cases nodes with
      | nil =>
          rw [List.map_nil, List.perm_nil] at hperm
          rw [hperm]
          rfl
      | cons first rest =>
          obtain ⟨first', rest', rfl⟩ := List.exists_cons_of_ne_nil
            (fun hnil : nodes' = [] => by simp [hnil] at hperm)
          have hnext := h.nextRemoval_twin hpresent hheuristic hlt hperm
          have hnode := hlt _ (graph.nextRemoval_mem options present first rest)
          rw [eliminateFrom, eliminateFrom, hnext, List.map_cons]
          refine congrArg _ (ih ?_ (fun i hi => hlt i (List.mem_of_mem_filter hi)) ?_)
          · intro i hi
            rw [IndexSet.mem_erase, IndexSet.mem_erase, hpresent i hi, Removal.node_renumber, Ne, Ne,
              h.twin_inj hi hnode]
          · refine (hperm.filter _).trans ?_
            rw [List.filter_map]
            refine List.Perm.of_eq (congrArg _ (List.filter_congr fun i hi => ?_))
            rw [Function.comp_apply, Removal.node_renumber, Bool.eq_iff_iff, bne_iff_ne, bne_iff_ne,
              Ne, Ne, h.twin_inj (hlt i hi) hnode]

/-- **Twins are removed in the same order.** -/
theorem eliminate_twin (h : Renumbered graph graph')
    (hheuristic : options.heuristic = .highestDegree) :
    graph'.eliminate options =
      (graph.eliminate options).map (Removal.renumber (graph.twin graph')) := by
  have hperm := h.perm_variableNodes
  have hlength := hperm.length_eq
  rw [List.length_map] at hlength
  rw [eliminate, eliminate, hlength]
  refine h.eliminateFrom_twin hheuristic _ (fun i hi => ?_)
    (fun i hi => (mem_variableNodes.1 hi).1) hperm
  rw [IndexSet.mem_ofList, IndexSet.mem_ofList, List.mem_range, List.mem_range]
  exact iff_of_true (h.twin_lt hi) hi

/-! ### Selection -/

/-- **Selections in which twins have the same colours**, and the twins of nodes without one have
none. -/
structure Alike (graph graph' : Graph) (selection selection' : Selection) : Prop where
  length_eq : selection.colours.length = graph.size
  length_eq' : selection'.colours.length = graph'.size
  colour_eq : ∀ i < graph.size,
    colourOf selection'.colours (graph.twin graph' i) = colourOf selection.colours i
  failed_eq : selection'.failed = selection.failed.map (graph.twin graph')

variable {selection selection' final : Selection}

theorem alike_start (h : Renumbered graph graph') :
    Alike graph graph' ⟨graph.initialColours, []⟩ ⟨graph'.initialColours, []⟩ where
  length_eq := by simp [initialColours, h.simple.size_eq, Vocabulary.size]
  length_eq' := by simp [initialColours, h.simple'.size_eq, Vocabulary.size]
  colour_eq i hi := by
    rw [colourOf_initialColours h.simple.size_eq, colourOf_initialColours h.simple'.size_eq,
      if_pos hi, if_pos (h.twin_lt hi), h.name_twin hi]
  failed_eq := rfl

/-- The same colours are free for twins. -/
theorem freeColour?_twin (h : Renumbered graph graph')
    (halike : Alike graph graph' selection selection') (hi : i < graph.size) :
    graph'.freeColour? selection'.colours (graph.twin graph' i) =
      graph.freeColour? selection.colours i := by
  have hused : ∀ colour, colour ∈ graph'.usedColours selection'.colours (graph.twin graph' i) ↔
      colour ∈ graph.usedColours selection.colours i := by
    intro colour
    rw [mem_usedColours, mem_usedColours]
    constructor
    · rintro ⟨k, hk, hcolour⟩
      obtain ⟨j, hj, rfl⟩ := h.exists_twin (h.simple'.lt hk)
      rw [halike.colour_eq j hj] at hcolour
      exact ⟨j, (h.mem_row_twin hi hj).1 hk, hcolour⟩
    · rintro ⟨j, hj, hcolour⟩
      have hlt := h.simple.lt hj
      rw [← halike.colour_eq j hlt] at hcolour
      exact ⟨_, (h.mem_row_twin hi hlt).2 hj, hcolour⟩
  refine congrArg (fun p => (List.range Register.count).find? p) (funext fun colour => ?_)
  refine congrArg not ?_
  rw [Bool.eq_iff_iff, List.contains_iff_mem, List.contains_iff_mem, hused]

theorem Alike.set (h : Renumbered graph graph')
    (halike : Alike graph graph' selection selection') (hi : i < graph.size) (colour : Nat) :
    Alike graph graph' { selection with colours := selection.colours.set i (some colour) }
      { selection' with
        colours := selection'.colours.set (graph.twin graph' i) (some colour) } where
  length_eq := by rw [List.length_set, halike.length_eq]
  length_eq' := by rw [List.length_set, halike.length_eq']
  colour_eq j hj := by
    rw [colourOf_set (halike.length_eq' ▸ h.twin_lt hi), colourOf_set (halike.length_eq ▸ hi),
      halike.colour_eq j hj]
    simp only [h.twin_inj hj hi]
  failed_eq := halike.failed_eq

theorem Alike.fail (halike : Alike graph graph' selection selection') (i : Nat) :
    Alike graph graph' { selection with failed := i :: selection.failed }
      { selection' with failed := graph.twin graph' i :: selection'.failed } where
  length_eq := halike.length_eq
  length_eq' := halike.length_eq'
  colour_eq := halike.colour_eq
  failed_eq := by rw [halike.failed_eq, List.map_cons]

/-- **Twins get the same colours.** -/
theorem selectFrom_twin (h : Renumbered graph graph') {removals : List Removal}
    (hlt : ∀ removal ∈ removals, removal.node < graph.size) {function : String}
    (halike : Alike graph graph' selection selection')
    (hselect : graph.selectFrom function selection removals = .ok final) :
    ∃ final', graph'.selectFrom function selection'
        (removals.map (Removal.renumber (graph.twin graph'))) = .ok final' ∧
      Alike graph graph' final final' := by
  induction removals generalizing selection selection' with
  | nil =>
      obtain rfl := Except.ok.inj hselect
      exact ⟨selection', rfl, halike⟩
  | cons removal removals ih =>
      rw [List.forall_mem_cons] at hlt
      have hfree := h.freeColour?_twin halike hlt.1
      rw [List.map_cons, selectFrom]
      rw [selectFrom] at hselect
      rw [Removal.node_renumber, hfree, Removal.isOptimistic_renumber]
      cases hcolour : graph.freeColour? selection.colours removal.node with
      | some colour =>
          rw [hcolour] at hselect
          exact ih hlt.2 (halike.set h hlt.1 colour) hselect
      | none =>
          rw [hcolour] at hselect
          dsimp only at hselect ⊢
          split at hselect
          · next hoptimistic =>
            rw [if_pos hoptimistic]
            exact ih hlt.2 (halike.fail removal.node) hselect
          · simp at hselect

/-- The selections for all variables are alike. -/
theorem select_twin (h : Renumbered graph graph')
    (hheuristic : options.heuristic = .highestDegree) (function : String) :
    ∃ selection selection', graph.select function (graph.eliminate options) = .ok selection ∧
      graph'.select function (graph'.eliminate options) = .ok selection' ∧
      (∀ i ∈ selection.failed, i < graph.size) ∧ Alike graph graph' selection selection' := by
  obtain ⟨selection, hselect, hselected⟩ := select_spec h.simple h.nodup function options
  have hlt : ∀ removal ∈ (graph.eliminate options).reverse, removal.node < graph.size := by
    intro removal hremoval
    have hnode := (List.mem_map_of_mem (List.mem_reverse.1 hremoval) : removal.node ∈ _)
    exact (mem_variableNodes.1 ((graph.eliminate_perm options).subset hnode)).1
  obtain ⟨selection', hselect', halike⟩ := h.selectFrom_twin hlt h.alike_start hselect
  rw [List.map_reverse, ← h.eliminate_twin hheuristic] at hselect'
  exact ⟨selection, selection', hselect, hselect',
    fun i hi => (mem_variableNodes.1 (hselected.failed_mem i hi)).1, halike⟩

/-! ### Outcomes -/

theorem length_optimistic (h : Renumbered graph graph')
    (hheuristic : options.heuristic = .highestDegree) :
    ((graph'.eliminate options).filter Removal.isOptimistic).length =
      ((graph.eliminate options).filter Removal.isOptimistic).length := by
  rw [h.eliminate_twin hheuristic, List.filter_map, List.length_map]
  rfl

/-- Every variable has the same register. -/
theorem perm_registersOf (h : Renumbered graph graph')
    (halike : Alike graph graph' selection selection') :
    (graph.registersOf selection.colours).Perm (graph'.registersOf selection'.colours) := by
  have hperm := h.perm_variableNodes.map fun node => (graph'.vocabulary.name node,
    ((colourOf selection'.colours node).bind (Register.generalPurpose[·]?)).getD "")
  rw [List.map_map] at hperm
  refine List.Perm.trans (List.Perm.of_eq ?_) hperm.symm
  refine List.map_congr_left fun i hi => ?_
  have hlt := (mem_variableNodes.1 hi).1
  rw [Function.comp_apply, h.name_twin hlt, halike.colour_eq i hlt]

theorem nodup_registersOf (h : Renumbered graph graph') (colours : List (Option Nat)) :
    ((graph.registersOf colours).map Prod.fst).Nodup := by
  rw [registersOf, List.map_map]
  exact nodup_map_name h.simple h.nodup graph.nodup_variableNodes fun _ hnode => hnode

theorem names_failed (h : Renumbered graph graph')
    (halike : Alike graph graph' selection selection')
    (hlt : ∀ i ∈ selection.failed, i < graph.size) :
    selection'.failed.map graph'.vocabulary.name =
      selection.failed.map graph.vocabulary.name := by
  rw [halike.failed_eq, List.map_map]
  exact List.map_congr_left fun i hi => h.name_twin (hlt i hi)

end Renumbered

end Graph

/-- **Outcomes that are the same up to the order of variables**: each variable has the same register,
or the same variables are to be spilled, or the same variables cannot be coloured. -/
inductive SameOutcome : Except ColouringError Colouring → Except ColouringError Colouring → Prop
  | registers {assigned assigned' : List (Name × String)} (optimistic : Nat)
      (hperm : assigned.Perm assigned')
      (hlookup : ∀ name, assigned.lookup name = assigned'.lookup name) :
      SameOutcome (.ok ⟨.registers assigned, optimistic⟩) (.ok ⟨.registers assigned', optimistic⟩)
  | spills (names : List Name) (optimistic : Nat) :
      SameOutcome (.ok ⟨.spills names, optimistic⟩) (.ok ⟨.spills names, optimistic⟩)
  | unsatisfiable (function : String) (nodes : List Name) :
      SameOutcome (.error (.unsatisfiable function nodes)) (.error (.unsatisfiable function nodes))

theorem SameOutcome.outcome (function : String) (options : ColouringOptions) (optimistic : Nat)
    (failed : List Name) :
    SameOutcome (Graph.outcome function options optimistic failed)
      (Graph.outcome function options optimistic failed) := by
  unfold Graph.outcome
  dsimp only
  split
  · exact .unsatisfiable function _
  · exact .spills _ optimistic

/-- Tables that are the same up to order hold the same. -/
theorem lookup_eq_of_perm {assigned assigned' : List (Name × String)}
    (hperm : assigned.Perm assigned') (hnodup : (assigned.map Prod.fst).Nodup) (name : Name) :
    assigned.lookup name = assigned'.lookup name := by
  have hnodup' := (hperm.map Prod.fst).nodup_iff.1 hnodup
  refine Option.ext fun register => ?_
  rw [lookup_eq_some_iff_mem hnodup, lookup_eq_some_iff_mem hnodup', hperm.mem_iff]

namespace Graph

theorem Renumbered.colour_same {graph graph' : Graph} (h : Renumbered graph graph')
    {options : ColouringOptions} (hheuristic : options.heuristic = .highestDegree)
    (function : String) :
    SameOutcome (graph.colour function options) (graph'.colour function options) := by
  obtain ⟨selection, selection', hselect, hselect', hlt, halike⟩ :=
    h.select_twin hheuristic function
  have hperm := h.perm_registersOf halike
  have hnames := h.names_failed halike hlt
  have hempty : selection'.failed.isEmpty = selection.failed.isEmpty := by
    rw [halike.failed_eq, List.isEmpty_map]
  simp only [colour, hselect, hselect', h.length_optimistic hheuristic, hnames, hempty]
  split
  · exact .registers _ hperm (lookup_eq_of_perm hperm (h.nodup_registersOf _))
  · exact .outcome ..

/-- The order of variables does not matter to what names there are. -/
theorem Built.mem_names {vars vars' : List String} {graph graph' : Graph}
    (hgraph : Built (Vocabulary.ofVariables vars) graph)
    (hgraph' : Built (Vocabulary.ofVariables vars') graph') (hvars : ∀ v, v ∈ vars ↔ v ∈ vars')
    (name : Name) : name ∈ graph.vocabulary.names ↔ name ∈ graph'.vocabulary.names := by
  rw [hgraph.vocabulary_eq, hgraph'.vocabulary_eq, Vocabulary.mem_names_ofVariables,
    Vocabulary.mem_names_ofVariables]
  simp only [hvars]

/-- **The order of variables does not matter**: two graphs made by adding conflicts, for the same
variables in whatever order, with the same conflicts between names, are coloured alike if the
heuristic looks at degrees. -/
theorem colour_order_immaterial {vars vars' : List String} {graph graph' : Graph}
    (hgraph : Built (Vocabulary.ofVariables vars) graph)
    (hgraph' : Built (Vocabulary.ofVariables vars') graph') (hvars : ∀ v, v ∈ vars ↔ v ∈ vars')
    (hinterferes : ∀ u w, graph.interferes u w = graph'.interferes u w) (function : String)
    (unspillable : List Name) :
    SameOutcome (graph.colour function ⟨.highestDegree, unspillable⟩)
      (graph'.colour function ⟨.highestDegree, unspillable⟩) := by
  have hrenumbered : Renumbered graph graph' := {
    simple := hgraph.simple
    simple' := hgraph'.simple
    nodup := by
      rw [hgraph.vocabulary_eq]
      exact Vocabulary.nodup_ofVariables vars
    nodup' := by
      rw [hgraph'.vocabulary_eq]
      exact Vocabulary.nodup_ofVariables vars'
    mem_names := hgraph.mem_names hgraph' hvars
    interferes_eq := hinterferes }
  exact hrenumbered.colour_same rfl function

/-- Graphs have the same conflicts if they have the same between the names they know. -/
theorem interferes_ext {graph graph' : Graph}
    (hnames : ∀ name, name ∈ graph.vocabulary.names ↔ name ∈ graph'.vocabulary.names)
    (hinterferes : ∀ u ∈ graph.vocabulary.names, ∀ w ∈ graph.vocabulary.names,
      graph.interferes u w = graph'.interferes u w) (u w : Name) :
    graph.interferes u w = graph'.interferes u w := by
  by_cases hu : u ∈ graph.vocabulary.names
  · by_cases hw : w ∈ graph.vocabulary.names
    · exact hinterferes u hu w hw
    · have hnone := Vocabulary.index?_eq_none_iff.2 hw
      have hnone' := Vocabulary.index?_eq_none_iff.2 (mt (hnames w).2 hw)
      simp [interferes, hnone, hnone']
  · have hnone := Vocabulary.index?_eq_none_iff.2 hu
    have hnone' := Vocabulary.index?_eq_none_iff.2 (mt (hnames u).2 hu)
    simp [interferes, hnone, hnone']

/-- A graph in which one variable conflicts with two others. -/
def forked : Graph :=
  ((edgeless (Vocabulary.ofVariables ["a", "b", "c"])).addEdge 15 16).addEdge 16 17

/-- The same graph for the variables in another order. -/
def forkedLast : Graph :=
  ((edgeless (Vocabulary.ofVariables ["c", "a", "b"])).addEdge 15 17).addEdge 17 16

theorem forked_order_immaterial :
    Built (Vocabulary.ofVariables ["a", "b", "c"]) forked ∧
      Built (Vocabulary.ofVariables ["c", "a", "b"]) forkedLast ∧
      (∀ v, v ∈ ["a", "b", "c"] ↔ v ∈ ["c", "a", "b"]) ∧
      (∀ u w, forked.interferes u w = forkedLast.interferes u w) ∧
      forked.colour "f" ⟨.highestDegree, ["%c"]⟩ =
        .ok ⟨.registers [("%a", "rdi"), ("%b", "rsi"), ("%c", "rdi")], 0⟩ ∧
      forkedLast.colour "f" ⟨.highestDegree, ["%c"]⟩ =
        .ok ⟨.registers [("%c", "rdi"), ("%a", "rdi"), ("%b", "rsi")], 0⟩ ∧
      SameOutcome (forked.colour "f" ⟨.highestDegree, ["%c"]⟩)
        (forkedLast.colour "f" ⟨.highestDegree, ["%c"]⟩) := by
  have hgraph : Built (Vocabulary.ofVariables ["a", "b", "c"]) forked :=
    (Built.edgeless.addEdge fun _ => by decide).addEdge fun _ => by decide
  have hgraph' : Built (Vocabulary.ofVariables ["c", "a", "b"]) forkedLast :=
    (Built.edgeless.addEdge fun _ => by decide).addEdge fun _ => by decide
  have hvars : ∀ v, v ∈ ["a", "b", "c"] ↔ v ∈ ["c", "a", "b"] := by
    intro v
    simp only [List.mem_cons, List.not_mem_nil, or_false]
    tauto
  have hinterferes : ∀ u w, forked.interferes u w = forkedLast.interferes u w :=
    interferes_ext (hgraph.mem_names hgraph' hvars) (by decide +kernel)
  exact ⟨hgraph, hgraph', hvars, hinterferes, by decide +kernel, by decide +kernel,
    colour_order_immaterial hgraph hgraph' hvars hinterferes "f" ["%c"]⟩

end Graph

end RegisterColouring
