/-
**Registers are given out first fit.**

A variable gets the first register that none of its neighbours has when it comes back.  A colour
that has been given is never changed, so the neighbours that stood in the way of the earlier
registers still do when selection has ended, whatever the order of elimination was.  The registers
that a call may overwrite come first in the order; hence a variable has one that calls keep only if
its neighbours have all those.

Main definitions:

* `RegisterColouring.Graph.FirstFit` — every colour before that of a variable is a neighbour's;
* `RegisterColouring.Graph.IsTakenBeside` — a neighbour of a name has a register.

Main results:

* `RegisterColouring.Graph.colourOf_set_of_some` — colours that have been given stay;
* `RegisterColouring.Graph.FirstFit.set`, `RegisterColouring.Graph.FirstFit.selectFrom` — selection
  keeps colours first fit, one variable after the other;
* `RegisterColouring.Graph.registers_first_fit` — **the registers of a colouring are first fit**.
-/

import RegisterColouring.Proofs.Outcomes

set_option autoImplicit false

namespace RegisterColouring

namespace Graph

variable {graph : Graph} {options : ColouringOptions} {function : String} {optimistic : Nat}
  {colours : List (Option Nat)} {node colour : Nat} {assigned : List (Name × String)}

/-! ### One variable -/

/-- The colours before the first free one are those of neighbours. -/
theorem freeColour?_first (h : graph.freeColour? colours node = some colour) {q : Nat}
    (hq : q < colour) : ∃ k ∈ graph.row node, colourOf colours k = some q := by
  have hused := (List.find?_range_eq_some.1 h).2.2 q hq
  rw [Bool.not_not, List.contains_iff_mem] at hused
  exact mem_usedColours.1 hused

/-- **Colours that have been given stay** when a node without one gets its colour. -/
theorem colourOf_set_of_some (hlt : node < colours.length) (hnone : colourOf colours node = none)
    {k c : Nat} (hk : colourOf colours k = some c) :
    colourOf (colours.set node (some colour)) k = some c := by
  rw [colourOf_set hlt, if_neg, hk]
  rintro rfl
  simp [hnone] at hk

/-- **Colours are first fit**: every colour before that of a variable is the colour of one of its
neighbours. -/
def FirstFit (graph : Graph) (colours : List (Option Nat)) : Prop :=
  ∀ node ∈ graph.variableNodes, ∀ colour, colourOf colours node = some colour →
    ∀ q < colour, ∃ k ∈ graph.row node, colourOf colours k = some q

/-- Colours stay first fit when a variable gets the first one that is free. -/
theorem FirstFit.set (h : graph.FirstFit colours) (hlt : node < colours.length)
    (hnone : colourOf colours node = none) (hfree : graph.freeColour? colours node = some colour) :
    graph.FirstFit (colours.set node (some colour)) := by
  intro i hi c hc q hq
  have hbeside : ∃ k ∈ graph.row i, colourOf colours k = some q := by
    rw [colourOf_set hlt] at hc
    split at hc
    · next heq =>
      subst heq
      exact freeColour?_first hfree (Option.some.inj hc ▸ hq)
    · exact h i hi c hc q hq
  obtain ⟨k, hk, hkq⟩ := hbeside
  exact ⟨k, hk, colourOf_set_of_some hlt hnone hkq⟩

/-! ### Selection -/

/-- **Selection keeps colours first fit**, as long as the variables that come back have no colour
yet. -/
theorem FirstFit.selectFrom {removals : List Removal} {selection final : Selection}
    (h : graph.FirstFit selection.colours)
    (hfresh : ∀ removal ∈ removals, removal.node < selection.colours.length ∧
      colourOf selection.colours removal.node = none)
    (hnodup : (removals.map Removal.node).Nodup)
    (hselect : graph.selectFrom function selection removals = .ok final) :
    graph.FirstFit final.colours := by
  induction removals generalizing selection with
  | nil => exact Except.ok.inj hselect ▸ h
  | cons removal removals ih =>
      obtain ⟨⟨hlt, hnone⟩, hfresh⟩ := List.forall_mem_cons.1 hfresh
      obtain ⟨hnew, hnodup⟩ := List.nodup_cons.1 hnodup
      unfold Graph.selectFrom at hselect
      split at hselect
      · next colour hfree =>
        refine ih (h.set hlt hnone hfree) (fun other hother => ?_) hnodup hselect
        have hne : other.node ≠ removal.node := fun heq =>
          hnew (heq ▸ List.mem_map_of_mem hother)
        dsimp only
        rw [List.length_set, colourOf_set hlt, if_neg hne]
        exact hfresh other hother
      · split at hselect
        · refine ih ?_ ?_ hnodup hselect
          · exact h
          · exact hfresh
        · simp at hselect

/-- No variable has a colour before it comes back. -/
theorem colourOf_initialColours_of_variable (hsize : graph.size = graph.vocabulary.size)
    (hnode : node ∈ graph.variableNodes) : colourOf graph.initialColours node = none := by
  obtain ⟨hlt, hvariable⟩ := mem_variableNodes.1 hnode
  rw [colourOf_initialColours hsize, if_pos hlt, List.idxOf?_eq_none_iff]
  exact hvariable

theorem firstFit_select (hsimple : graph.Simple) {selection : Selection}
    (h : graph.select function (graph.eliminate options) = .ok selection) :
    graph.FirstFit selection.colours := by
  have hperm := graph.eliminate_perm options
  have hnone : ∀ node ∈ graph.variableNodes, colourOf graph.initialColours node = none :=
    fun _ hnode => colourOf_initialColours_of_variable hsimple.size_eq hnode
  refine FirstFit.selectFrom (fun node hnode colour hcolour => ?_) (fun removal hremoval => ?_) ?_ h
  · simp [hnone node hnode] at hcolour
  · have hnode := hperm.subset (List.mem_map_of_mem (List.mem_reverse.1 hremoval))
    refine ⟨?_, hnone _ hnode⟩
    have hlt := (mem_variableNodes.1 hnode).1
    rw [hsimple.size_eq] at hlt
    simpa [initialColours, Vocabulary.size] using hlt
  · rw [List.map_reverse, List.nodup_reverse]
    exact hperm.nodup_iff.2 graph.nodup_variableNodes

/-- A colouring with registers comes from colours that are first fit. -/
theorem exists_firstFit (hsimple : graph.Simple) (hnodup : graph.vocabulary.names.Nodup)
    (h : graph.colour function options = .ok ⟨.registers assigned, optimistic⟩) :
    ∃ colours, graph.FirstFit colours ∧ graph.Chosen colours graph.variableNodes ∧
      (∀ node ∈ graph.variableNodes, ∃ colour, colourOf colours node = some colour) ∧
      assigned = graph.registersOf colours := by
  obtain ⟨selection, hselect, hselected⟩ := select_spec hsimple hnodup function options
  simp only [colour, hselect] at h
  split at h
  · next hfailed =>
    simp only [Except.ok.injEq, Colouring.mk.injEq, Assignment.registers.injEq] at h
    refine ⟨selection.colours, firstFit_select hsimple hselect, hselected.chosen, ?_, h.1.symm⟩
    intro node hnode
    refine (hselected.settled node hnode).resolve_left ?_
    rw [List.isEmpty_iff.1 hfailed]
    exact List.not_mem_nil
  · exact absurd h outcome_eq_registers

/-! ### Registers of neighbours -/

/-- **A neighbour of a name has a register**: it is that register, or a variable with it. -/
def IsTakenBeside (graph : Graph) (assigned : List (Name × String)) (name : Name)
    (register : String) : Prop :=
  ∃ w, graph.interferes name w = true ∧ (w = register ∨ (w, register) ∈ assigned)

theorem eq_or_mem_of_place {w register : String} (h : place assigned w = register) :
    w = register ∨ (w, register) ∈ assigned := by
  unfold place at h
  cases hlookup : assigned.lookup w with
  | none => exact Or.inl (by simpa [hlookup] using h)
  | some found =>
      obtain ⟨before, after, hsplit, -⟩ := List.lookup_eq_some_iff.1 hlookup
      obtain rfl : found = register := by simpa [hlookup] using h
      exact Or.inr (by simp [hsplit])

theorem interferes_name (hsimple : graph.Simple) (hnodup : graph.vocabulary.names.Nodup) {k : Nat}
    (h : k ∈ graph.row node) :
    graph.interferes (graph.vocabulary.name node) (graph.vocabulary.name k) = true := by
  have hnode := lt_of_mem_row h
  have hk := hsimple.lt h
  rw [hsimple.size_eq] at hnode hk
  simp only [interferes, Vocabulary.index?_name hnodup hnode, Vocabulary.index?_name hnodup hk]
  exact decide_eq_true h

section Taken

variable (hsimple : graph.Simple) (hnodup : graph.vocabulary.names.Nodup)
  (hchosen : graph.Chosen colours graph.variableNodes)
  (hall : ∀ node ∈ graph.variableNodes, ∃ colour, colourOf colours node = some colour)

include hsimple hnodup hchosen hall

/-- A neighbour has the register at the position of its colour. -/
theorem isTakenBeside_of_colour {k q : Nat} (hk : k ∈ graph.row node)
    (hcolour : colourOf colours k = some q) :
    ∃ register, Register.generalPurpose[q]? = some register ∧
      graph.IsTakenBeside (graph.registersOf colours) (graph.vocabulary.name node) register := by
  obtain ⟨c, hc, hplace⟩ := place_eq hsimple hnodup hchosen hall (hsimple.lt hk)
  obtain rfl : q = c := Option.some.inj (hcolour.symm.trans hc)
  exact ⟨_, hplace, _, interferes_name hsimple hnodup hk, eq_or_mem_of_place rfl⟩

/-- **Earlier registers than that of a variable are taken beside it.** -/
theorem FirstFit.isTakenBeside (hfit : graph.FirstFit colours) {v : Name} {r : String} {p q : Nat}
    (hv : (v, r) ∈ graph.registersOf colours) (hp : Register.generalPurpose[p]? = some r)
    (hq : q < p) :
    ∃ register, Register.generalPurpose[q]? = some register ∧
      graph.IsTakenBeside (graph.registersOf colours) v register := by
  obtain ⟨node, hnode, hpair⟩ := List.mem_map.1 hv
  obtain ⟨rfl, hr⟩ := Prod.mk.inj hpair
  obtain ⟨colour, hcolour⟩ := hall node hnode
  have hlt : colour < Register.generalPurpose.length := hchosen.colour_lt node colour hcolour
  -- the position of the register is the colour of the variable
  obtain rfl : colour = p := by
    refine (List.getElem?_inj hlt Register.nodup_generalPurpose).1 ?_
    rw [hp, ← hr, hcolour, Option.bind_some, List.getElem?_eq_getElem hlt, Option.getD_some]
  obtain ⟨k, hk, hkq⟩ := hfit node hnode colour hcolour q hq
  exact isTakenBeside_of_colour hsimple hnodup hchosen hall hk hkq

end Taken

/-- The registers that a call may overwrite come before those that it keeps. -/
theorem exists_positions : ∀ kept ∈ Register.calleeSaved, ∀ lost ∈ Register.callerSaved,
    ∃ p : Nat, Register.generalPurpose[p]? = some kept ∧
      ∃ q < p, Register.generalPurpose[q]? = some lost := by
  have hposition : ∀ r ∈ Register.generalPurpose,
      Register.generalPurpose[Register.generalPurpose.idxOf r]? = some r := fun r hr => by
    rw [List.getElem?_eq_getElem (List.idxOf_lt_length_of_mem hr), List.getElem_idxOf]
  have hlt : ∀ kept ∈ Register.calleeSaved, ∀ lost ∈ Register.callerSaved,
      Register.generalPurpose.idxOf lost < Register.generalPurpose.idxOf kept := by decide
  intro kept hkept lost hlost
  exact ⟨_, hposition kept (Register.calleeSaved_subset hkept), _, hlt kept hkept lost hlost,
    hposition lost (Register.callerSaved_subset hlost)⟩

/-- **The registers of a colouring are first fit**, for every graph made by adding conflicts and all
options.  If a variable has the register at some position of the order, the register at each earlier
position is taken by one of its neighbours.  In particular it has a register that calls keep only if
every register that a call may overwrite is taken beside it. -/
theorem registers_first_fit {vars : List String} {graph : Graph}
    (hgraph : Built (Vocabulary.ofVariables vars) graph) {function : String}
    {options : ColouringOptions} {colouring : Colouring} {assigned : List (Name × String)}
    (hcolour : graph.colour function options = .ok colouring)
    (hassigned : colouring.registers? = some assigned) :
    (∀ (v : Name) (r : String) (p : Nat), (v, r) ∈ assigned →
      Register.generalPurpose[p]? = some r → ∀ q < p, ∃ register,
        Register.generalPurpose[q]? = some register ∧ graph.IsTakenBeside assigned v register) ∧
    ∀ v, ∀ kept ∈ Register.calleeSaved, (v, kept) ∈ assigned →
      ∀ lost ∈ Register.callerSaved, graph.IsTakenBeside assigned v lost := by
  have hnodup := hgraph.nodup
  obtain ⟨assignment, optimistic⟩ := colouring
  obtain rfl : assignment = .registers assigned := by
    cases assignment <;> simp_all [Colouring.registers?]
  obtain ⟨colours, hfit, hchosen, hall, rfl⟩ := exists_firstFit hgraph.simple hnodup hcolour
  refine ⟨fun v r p hv hp q hq => ?_, fun v kept hkept hv lost hlost => ?_⟩
  · exact hfit.isTakenBeside hgraph.simple hnodup hchosen hall hv hp hq
  · obtain ⟨p, hp, q, hq, hlost⟩ := exists_positions kept hkept lost hlost
    obtain ⟨register, hregister, htaken⟩ :=
      hfit.isTakenBeside hgraph.simple hnodup hchosen hall hv hp hq
    rw [hlost, Option.some_inj] at hregister
    exact hregister ▸ htaken

/-- A graph in which two variables conflict with each other and with the first eight registers. -/
def squeezed : Graph :=
  (edgeless (Vocabulary.ofVariables ["a", "b"])).addClique
    (IndexSet.ofList (List.range 8 ++ [15, 16]))

/-- One of the two variables gets a register that calls keep, since the other has the last one that
they may overwrite. -/
theorem squeezed_first_fit :
    Built (Vocabulary.ofVariables ["a", "b"]) squeezed ∧
      squeezed.colour "f" ⟨.highestDegree, []⟩ =
        .ok ⟨.registers [("%a", "r12"), ("%b", "r11")], 0⟩ ∧
      "r12" ∈ Register.calleeSaved ∧
      ∀ lost ∈ Register.callerSaved,
        squeezed.IsTakenBeside [("%a", "r12"), ("%b", "r11")] "%a" lost := by
  have hgraph : Built (Vocabulary.ofVariables ["a", "b"]) squeezed := by
    refine Built.edgeless.addClique fun i hi => ?_
    simp only [IndexSet.mem_ofList, List.mem_append, List.mem_range, List.mem_cons,
      List.not_mem_nil, or_false] at hi
    rw [show Graph.size _ = 17 from rfl]
    omega
  have hcolour : squeezed.colour "f" ⟨.highestDegree, []⟩ =
      .ok ⟨.registers [("%a", "r12"), ("%b", "r11")], 0⟩ := by decide +kernel
  have hkept : "r12" ∈ Register.calleeSaved := by decide
  exact ⟨hgraph, hcolour, hkept,
    (registers_first_fit hgraph hcolour rfl).2 "%a" "r12" hkept (by decide)⟩

end Graph

end RegisterColouring
