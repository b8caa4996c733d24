/-
**Selected registers are free of conflicts.**

While the variables come back, the registers given so far never clash.  A variable that was removed
with few neighbours always finds a register, since at most its neighbours at that time have one when
it comes back.  Hence colouring ends with a register for every variable, such that conflicting names
have different ones; or with variables to spill; or, only if none of the variables without a
register can be spilled, with an error.

Main definitions:

* `RegisterColouring.Graph.Chosen` — the invariant of selection;
* `RegisterColouring.Graph.Failed` — a variable that came back and found no register;
* `RegisterColouring.place` — the register of a name.

Main results:

* `RegisterColouring.Graph.select_spec` — **selection always succeeds and keeps its invariant**;
* `RegisterColouring.Graph.colour_registers`, `RegisterColouring.Graph.colour_spills`,
  `RegisterColouring.Graph.colour_error` — the three ends of colouring;
* `RegisterColouring.Graph.place_mem`, `RegisterColouring.Graph.place_register`,
  `RegisterColouring.Graph.place_ne` — **a colouring is valid**.
-/

import RegisterColouring.Colouring.Selection
import RegisterColouring.Proofs.Conflicts
import RegisterColouring.Proofs.Elimination

set_option autoImplicit false

namespace RegisterColouring

namespace Graph

variable {graph : Graph} {options : ColouringOptions} {colours : List (Option Nat)}
  {done : List Nat} {node : Nat}

/-! ### Colours -/

theorem mem_variableNodes :
    node ∈ graph.variableNodes ↔
      node < graph.size ∧ graph.vocabulary.name node ∉ Register.generalPurpose := by
  rw [variableNodes, List.mem_filter, List.mem_range, Vocabulary.isRegister, Bool.not_eq_true',
    ← Bool.not_eq_true, Register.isGeneralPurpose_iff]

theorem mem_usedColours {colour : Nat} :
    colour ∈ graph.usedColours colours node ↔
      ∃ k ∈ graph.row node, colourOf colours k = some colour := by
  simp [usedColours]

theorem freeColour?_some {colour : Nat} (h : graph.freeColour? colours node = some colour) :
    colour < Register.count ∧ ∀ k ∈ graph.row node, colourOf colours k ≠ some colour := by
  have hmem := List.mem_range.1 (List.mem_of_find?_eq_some h)
  have hfree := List.find?_some h
  refine ⟨hmem, ?_⟩
  intro k hk hcolour
  simp only [Bool.not_eq_true', List.contains_eq_mem, decide_eq_false_iff_not] at hfree
  exact hfree (mem_usedColours.2 ⟨k, hk, hcolour⟩)

theorem freeColour?_none (h : graph.freeColour? colours node = none) {colour : Nat}
    (hcolour : colour < Register.count) :
    ∃ k ∈ graph.row node, colourOf colours k = some colour := by
  have hused := List.find?_eq_none.1 h colour (List.mem_range.2 hcolour)
  simp only [Bool.not_eq_true', Bool.not_eq_false, List.contains_eq_mem, decide_eq_true_eq] at hused
  exact mem_usedColours.1 hused

theorem colourOf_set {colour k : Nat} (hnode : node < colours.length) :
    colourOf (colours.set node (some colour)) k =
      if k = node then some colour else colourOf colours k := by
  by_cases hk : k = node
  · subst hk
    simp [colourOf, hnode]
  · simp [colourOf, hk, List.getElem?_set_ne (Ne.symm hk)]

/-! ### The invariant of selection -/

/-- **The invariant of selection**, once the given variables have come back. -/
structure Chosen (graph : Graph) (colours : List (Option Nat)) (done : List Nat) : Prop where
  length_eq : colours.length = graph.size
  register : ∀ i, i < graph.size → graph.vocabulary.name i ∈ Register.generalPurpose →
    colourOf colours i = Register.generalPurpose.idxOf? (graph.vocabulary.name i)
  colour_lt : ∀ i colour, colourOf colours i = some colour → colour < Register.count
  known : ∀ i colour, colourOf colours i = some colour → i < graph.size ∧
    (graph.vocabulary.name i ∈ Register.generalPurpose ∨ i ∈ done)
  proper : ∀ i j colour, j ∈ graph.row i → colourOf colours i = some colour →
    colourOf colours j ≠ some colour

theorem colourOf_initialColours (hsize : graph.size = graph.vocabulary.size) (i : Nat) :
    colourOf graph.initialColours i =
      if i < graph.size then Register.generalPurpose.idxOf? (graph.vocabulary.name i)
      else none := by
  rw [hsize]
  split
  · next hi => simp [colourOf, initialColours, Vocabulary.getElem?_name hi]
  · next hi =>
    have hnone : graph.vocabulary.names[i]? = none :=
      List.getElem?_eq_none_iff.2 (Nat.le_of_not_lt hi)
    simp [colourOf, initialColours, hnone]

theorem idxOf?_register {name : Name} {colour : Nat}
    (h : Register.generalPurpose.idxOf? name = some colour) :
    Register.generalPurpose[colour]? = some name := by
  obtain ⟨hlt, hname, -⟩ := List.idxOf?_eq_some_iff.1 h
  rw [List.getElem?_eq_getElem hlt, hname]

theorem exists_colour {name : Name} (h : name ∈ Register.generalPurpose) :
    ∃ colour, Register.generalPurpose.idxOf? name = some colour := by
  apply Option.ne_none_iff_exists'.1
  rwa [Ne, List.idxOf?_eq_none_iff, not_not]

theorem chosen_initialColours (hsimple : graph.Simple) (hnodup : graph.vocabulary.names.Nodup) :
    graph.Chosen graph.initialColours [] := by
  have hcolour : ∀ i colour, colourOf graph.initialColours i = some colour →
      i < graph.size ∧ Register.generalPurpose[colour]? = some (graph.vocabulary.name i) := by
    intro i colour h
    rw [colourOf_initialColours hsimple.size_eq] at h
    split at h
    · next hi => exact ⟨hi, idxOf?_register h⟩
    · simp at h
  refine ⟨?_, ?_, ?_, ?_, ?_⟩
  · simp [initialColours, hsimple.size_eq, Vocabulary.size]
  · intro i hi _
    rw [colourOf_initialColours hsimple.size_eq, if_pos hi]
  · intro i colour h
    exact (List.getElem?_eq_some_iff.1 (hcolour i colour h).2).1
  · intro i colour h
    exact ⟨(hcolour i colour h).1, Or.inl (List.mem_of_getElem? (hcolour i colour h).2)⟩
  · intro i j colour hj hi hj'
    have hname := (hcolour i colour hi).2
    rw [(hcolour j colour hj').2, Option.some_inj] at hname
    have hjlt := (hcolour j colour hj').1
    have hilt := (hcolour i colour hi).1
    rw [hsimple.size_eq] at hilt hjlt
    rw [(Vocabulary.name_inj hnodup hjlt hilt).1 hname] at hj
    exact hsimple.irrefl i hj

theorem Chosen.mono {done' : List Nat} (h : graph.Chosen colours done)
    (hsubset : ∀ k ∈ done, k ∈ done') : graph.Chosen colours done' := by
  refine ⟨h.length_eq, h.register, h.colour_lt, ?_, h.proper⟩
  intro i colour hi
  exact ⟨(h.known i colour hi).1, (h.known i colour hi).2.imp_right (hsubset i)⟩

/-- A variable may get a colour that none of its neighbours has. -/
theorem Chosen.set (hsimple : graph.Simple) (h : graph.Chosen colours done)
    (hnode : node ∈ graph.variableNodes) {colour : Nat}
    (hfree : graph.freeColour? colours node = some colour) :
    graph.Chosen (colours.set node (some colour)) (node :: done) := by
  obtain ⟨hlt, hvariable⟩ := mem_variableNodes.1 hnode
  obtain ⟨hcount, hclear⟩ := freeColour?_some hfree
  have hset : ∀ k, colourOf (colours.set node (some colour)) k =
      if k = node then some colour else colourOf colours k := fun k =>
    colourOf_set (by rw [h.length_eq]; exact hlt)
  refine ⟨by rw [List.length_set, h.length_eq], ?_, ?_, ?_, ?_⟩
  · intro i hi hregister
    rw [hset, if_neg (by rintro rfl; exact hvariable hregister), h.register i hi hregister]
  · intro i c hi
    rw [hset] at hi
    split at hi
    · rwa [← Option.some_inj.1 hi]
    · exact h.colour_lt i c hi
  · intro i c hi
    rw [hset] at hi
    split at hi
    · next heq => exact ⟨heq ▸ hlt, Or.inr (heq ▸ List.mem_cons_self ..)⟩
    · exact ⟨(h.known i c hi).1, (h.known i c hi).2.imp_right (List.mem_cons_of_mem _)⟩
  · intro i j c hj hi hj'
    -- the variable has its colour alone among its neighbours; other pairs are as before
    rw [hset] at hi hj'
    split at hi
    · next heq =>
      subst heq
      rw [if_neg (by rintro rfl; exact hsimple.irrefl _ hj)] at hj'
      exact hclear j hj (hj'.trans hi.symm)
    · split at hj'
      · next heq =>
        subst heq
        exact hclear i (hsimple.symm i j hj) (hi.trans hj'.symm)
      · exact h.proper i j c hj hi hj'

/-! ### Selection -/

/-- **A variable that came back and found no register**: when it did, the variables that were
removed after it had come back, and its neighbours among them and the registers had every colour. -/
def Failed (graph : Graph) (removals : List Removal) (node : Nat) : Prop :=
  ∃ before removal later colours, removals = before ++ removal :: later ∧
    removal.node = node ∧ removal.isOptimistic = true ∧
    graph.Chosen colours (later.map Removal.node) ∧ graph.freeColour? colours node = none

/-- The invariant of selection, with the variables that found no register. -/
structure Selected (graph : Graph) (removals : List Removal) (selection : Selection)
    (done : List Nat) : Prop where
  chosen : graph.Chosen selection.colours done
  settled : ∀ k ∈ done, k ∈ selection.failed ∨ ∃ colour, colourOf selection.colours k = some colour
  failed_mem : ∀ k ∈ selection.failed, k ∈ done
  failed : ∀ k ∈ selection.failed, graph.Failed removals k

/-- A variable without a free colour was removed with too many neighbours: those that have a colour
were present. -/
theorem isOptimistic_of_freeColour?_none {before later : List Removal} {removal : Removal}
    (hsplit : graph.eliminate options = before ++ removal :: later)
    (hdisjoint : ∀ r ∈ later, r.node ∉ before.map Removal.node)
    (hvariables : ∀ r ∈ before, r.node ∈ graph.variableNodes)
    (hchosen : graph.Chosen colours (later.map Removal.node))
    (hnone : graph.freeColour? colours removal.node = none) : removal.isOptimistic = true := by
  obtain ⟨present, hpresent, hstage⟩ := eliminate_stage hsplit
  have hcolours : ∀ colour ∈ List.range Register.count,
      colour ∈ (graph.row removal.node ∩ present).toList.filterMap (colourOf colours) := by
    intro colour hcolour
    obtain ⟨k, hk, hkcolour⟩ := freeColour?_none hnone (List.mem_range.1 hcolour)
    obtain ⟨hklt, hkdone⟩ := hchosen.known k colour hkcolour
    refine List.mem_filterMap.2 ⟨k, ?_, hkcolour⟩
    rw [IndexSet.mem_toList, IndexSet.mem_inter, hpresent]
    refine ⟨hk, hklt, ?_⟩
    intro hbefore
    rcases hkdone with hregister | hlater
    · obtain ⟨r, hr, rfl⟩ := List.mem_map.1 hbefore
      exact (mem_variableNodes.1 (hvariables r hr)).2 hregister
    · obtain ⟨r, hr, rfl⟩ := List.mem_map.1 hlater
      exact hdisjoint r hr hbefore
  have hcount := (List.nodup_range.subperm hcolours).length_le
  rw [List.length_range] at hcount
  rw [Removal.isOptimistic, hstage.degree_eq, decide_eq_true_eq]
  exact Nat.le_trans hcount (List.length_filterMap_le _ _)

/-- A variable comes back to a free register. -/
theorem Selected.colour {removals : List Removal} {selection : Selection} {done : List Nat}
    (hsimple : graph.Simple) (h : graph.Selected removals selection done)
    (hnode : node ∈ graph.variableNodes) {colour : Nat}
    (hfree : graph.freeColour? selection.colours node = some colour) :
    graph.Selected removals
      { selection with colours := selection.colours.set node (some colour) } (node :: done) := by
  refine ⟨h.chosen.set hsimple hnode hfree, ?_, ?_, h.failed⟩
  · intro k hk
    rw [colourOf_set (by rw [h.chosen.length_eq]; exact (mem_variableNodes.1 hnode).1)]
    split
    · exact Or.inr ⟨colour, rfl⟩
    · next hne => exact h.settled k ((List.mem_cons.1 hk).resolve_left hne)
  · intro k hk
    exact List.mem_cons_of_mem _ (h.failed_mem k hk)

/-- A variable comes back and finds no register. -/
theorem Selected.fail {removals : List Removal} {selection : Selection} {done : List Nat}
    (h : graph.Selected removals selection done) (hfailed : graph.Failed removals node) :
    graph.Selected removals { selection with failed := node :: selection.failed }
      (node :: done) := by
  refine ⟨h.chosen.mono fun k hk => List.mem_cons_of_mem _ hk, ?_, ?_, ?_⟩
  · intro k hk
    rcases List.mem_cons.1 hk with rfl | hk
    · exact Or.inl (List.mem_cons_self ..)
    · exact (h.settled k hk).imp_left (List.mem_cons_of_mem _)
  · intro k hk
    rcases List.mem_cons.1 hk with rfl | hk
    · exact List.mem_cons_self ..
    · exact List.mem_cons_of_mem _ (h.failed_mem k hk)
  · intro k hk
    rcases List.mem_cons.1 hk with rfl | hk
    · exact hfailed
    · exact h.failed k hk

/-- Selection goes on from the variables that have come back to those that were removed before. -/
theorem selectFrom_spec (hsimple : graph.Simple) (function : String) (before : List Removal) :
    ∀ (later : List Removal) (selection : Selection),
      graph.eliminate options = before ++ later →
      graph.Selected (graph.eliminate options) selection (later.map Removal.node) →
      ∃ selection', graph.selectFrom function selection before.reverse = .ok selection' ∧
        graph.Selected (graph.eliminate options) selection'
          ((graph.eliminate options).map Removal.node) := by
  have hperm := graph.eliminate_perm options
  have hnodup := hperm.nodup_iff.2 graph.nodup_variableNodes
  -- the last removal comes back first
  induction before using List.reverseRecOn with
  | nil =>
      intro later selection hsplit hselected
      rw [List.nil_append] at hsplit
      exact ⟨selection, rfl, by rw [hsplit]; rw [hsplit] at hselected; exact hselected⟩
  | append_singleton before removal ih =>
      intro later selection hsplit hselected
      rw [List.append_assoc, List.singleton_append] at hsplit
      have hnode : removal.node ∈ graph.variableNodes :=
        hperm.subset (by rw [hsplit]; simp)
      rw [List.reverse_append, List.reverse_singleton, List.singleton_append, selectFrom]
      cases hfree : graph.freeColour? selection.colours removal.node with
      | some colour =>
          exact ih (removal :: later) _ hsplit (hselected.colour hsimple hnode hfree)
      | none =>
          have hoptimistic : removal.isOptimistic = true := by
            rw [hsplit, List.map_append, List.nodup_append] at hnodup
            refine isOptimistic_of_freeColour?_none hsplit ?_ ?_ hselected.chosen hfree
            · intro r hr hbefore
              exact hnodup.2.2 _ hbefore r.node
                (List.mem_map_of_mem (List.mem_cons_of_mem _ hr)) rfl
            · intro r hr
              have hmem : r ∈ graph.eliminate options := hsplit ▸ List.mem_append_left _ hr
              exact hperm.subset (List.mem_map_of_mem hmem)
          simp only [hoptimistic, if_true]
          exact ih (removal :: later) _ hsplit (hselected.fail ⟨before, removal, later,
            selection.colours, hsplit, rfl, hoptimistic, hselected.chosen, hfree⟩)

/-- **Selection always succeeds and keeps its invariant.** -/
theorem select_spec (hsimple : graph.Simple) (hnodup : graph.vocabulary.names.Nodup)
    (function : String) (options : ColouringOptions) :
    ∃ selection, graph.select function (graph.eliminate options) = .ok selection ∧
      graph.Selected (graph.eliminate options) selection graph.variableNodes := by
  obtain ⟨selection, hselect, hselected⟩ := selectFrom_spec hsimple function
    (graph.eliminate options) [] ⟨graph.initialColours, []⟩ (List.append_nil _).symm
    ⟨chosen_initialColours hsimple hnodup, by simp, by simp, by simp⟩
  have hperm := graph.eliminate_perm options
  refine ⟨selection, hselect, hselected.chosen.mono fun k hk => hperm.subset hk, ?_, ?_,
    hselected.failed⟩
  · intro k hk
    exact hselected.settled k (hperm.symm.subset hk)
  · intro k hk
    exact hperm.subset (hselected.failed_mem k hk)

/-- The variables that find no register are some of those that come back, latest first. -/
theorem selectFrom_failed {function : String} {removals : List Removal}
    {selection selection' : Selection}
    (h : graph.selectFrom function selection removals = .ok selection') :
    ∃ found, selection'.failed = found ++ selection.failed ∧
      found.Sublist (removals.map Removal.node).reverse := by
  induction removals generalizing selection with
  | nil =>
      obtain rfl : selection = selection' := Except.ok.inj h
      exact ⟨[], rfl, List.nil_sublist _⟩
  | cons removal removals ih =>
      rw [List.map_cons, List.reverse_cons]
      unfold selectFrom at h
      split at h
      · obtain ⟨found, hfailed, hfound⟩ := ih h
        exact ⟨found, hfailed, hfound.trans (List.sublist_append_left _ _)⟩
      · split at h
        · obtain ⟨found, hfailed, hfound⟩ := ih h
          refine ⟨found ++ [removal.node], by simp [hfailed], ?_⟩
          exact hfound.append (List.Sublist.refl _)
        · simp at h

/-- No variable fails twice. -/
theorem nodup_failed {function : String} {selection : Selection}
    (h : graph.select function (graph.eliminate options) = .ok selection) :
    selection.failed.Nodup := by
  obtain ⟨found, hfailed, hfound⟩ := selectFrom_failed h
  rw [List.map_reverse, List.reverse_reverse] at hfound
  rw [hfailed, List.append_nil]
  exact hfound.nodup ((graph.eliminate_perm options).nodup_iff.2 graph.nodup_variableNodes)

/-! ### The ends of colouring -/

theorem colour_eq (hsimple : graph.Simple) (hnodup : graph.vocabulary.names.Nodup)
    (function : String) (options : ColouringOptions) :
    ∃ selection, selection.failed.Nodup ∧
      graph.Selected (graph.eliminate options) selection graph.variableNodes ∧
      graph.colour function options =
        if selection.failed = [] then
          .ok ⟨.registers (graph.registersOf selection.colours),
            ((graph.eliminate options).filter Removal.isOptimistic).length⟩
        else
          outcome function options ((graph.eliminate options).filter Removal.isOptimistic).length
            (selection.failed.map graph.vocabulary.name) := by
  obtain ⟨selection, hselect, hselected⟩ := select_spec hsimple hnodup function options
  refine ⟨selection, nodup_failed hselect, hselected, ?_⟩
  simp only [colour, hselect, List.isEmpty_iff]

variable {function : String} {optimistic : Nat} {names : List Name}

theorem outcome_eq_registers {assigned : List (Name × String)} {k : Nat} :
    outcome function options optimistic names ≠ .ok ⟨.registers assigned, k⟩ := by
  unfold outcome
  dsimp only
  split <;> simp

/-- Every variable has a colour when colouring ends with registers. -/
theorem colour_registers (hsimple : graph.Simple) (hnodup : graph.vocabulary.names.Nodup)
    {assigned : List (Name × String)}
    (h : graph.colour function options = .ok ⟨.registers assigned, optimistic⟩) :
    ∃ colours, graph.Chosen colours graph.variableNodes ∧
      (∀ node ∈ graph.variableNodes, ∃ colour, colourOf colours node = some colour) ∧
      assigned = graph.registersOf colours := by
  obtain ⟨selection, -, hselected, hcolour⟩ := colour_eq hsimple hnodup function options
  rw [hcolour] at h
  split at h
  · next hfailed =>
    simp only [Except.ok.injEq, Colouring.mk.injEq, Assignment.registers.injEq] at h
    refine ⟨selection.colours, hselected.chosen, ?_, h.1.symm⟩
    intro node hnode
    have hsettled := hselected.settled node hnode
    rw [hfailed] at hsettled
    exact hsettled.resolve_left (List.not_mem_nil)
  · exact absurd h outcome_eq_registers

/-- Only variables are spilled, at least one, and only those that can be. -/
theorem colour_spills (hsimple : graph.Simple) (hnodup : graph.vocabulary.names.Nodup)
    (h : graph.colour function options = .ok ⟨.spills names, optimistic⟩) :
    names ≠ [] ∧ ∀ name ∈ names, name ∉ options.unspillable ∧ name ∈ graph.vocabulary.names ∧
      name ∉ Register.generalPurpose := by
  obtain ⟨selection, -, hselected, hcolour⟩ := colour_eq hsimple hnodup function options
  rw [hcolour] at h
  split at h
  · simp at h
  · unfold outcome at h
    dsimp only at h
    split at h
    · simp at h
    · next hsome =>
      simp only [Except.ok.injEq, Colouring.mk.injEq, Assignment.spills.injEq] at h
      obtain ⟨rfl, -⟩ := h
      constructor
      · intro hnil
        rw [List.eq_nil_iff_length_eq_zero, (alphabetical_perm _).length_eq,
          ← List.eq_nil_iff_length_eq_zero] at hnil
        exact hsome (List.isEmpty_iff.2 hnil)
      · intro name hname
        rw [mem_alphabetical, List.mem_filter, List.mem_map] at hname
        obtain ⟨⟨node, hnode, rfl⟩, hspillable⟩ := hname
        have hvariable := mem_variableNodes.1 (hselected.failed_mem node hnode)
        exact ⟨by simpa using hspillable,
          Vocabulary.name_mem (hsimple.size_eq ▸ hvariable.1), hvariable.2⟩

/-- Colouring fails only if some variable that found no register cannot be spilled. -/
theorem colour_error (hsimple : graph.Simple) (hnodup : graph.vocabulary.names.Nodup)
    {e : ColouringError} (h : graph.colour function options = .error e) :
    (∃ nodes, e = .unsatisfiable function nodes) ∧ ∃ node ∈ graph.variableNodes,
      graph.isSpillable options node = false ∧ graph.Failed (graph.eliminate options) node := by
  obtain ⟨selection, -, hselected, hcolour⟩ := colour_eq hsimple hnodup function options
  rw [hcolour] at h
  split at h
  · simp at h
  · next hfailed =>
    unfold outcome at h
    dsimp only at h
    split at h
    · next hnone =>
      refine ⟨⟨_, (Except.error.inj h).symm⟩, ?_⟩
      obtain ⟨node, hnode⟩ := List.exists_mem_of_ne_nil _ hfailed
      refine ⟨node, hselected.failed_mem node hnode, ?_, hselected.failed node hnode⟩
      rw [List.isEmpty_iff, List.filter_eq_nil_iff] at hnone
      have hstuck := hnone _ (List.mem_map_of_mem hnode)
      simpa [isSpillable] using hstuck
    · simp at h

end Graph

/-! ### The register of a name -/

/-- The register of a name in a colouring: a general purpose register keeps its place. -/
def place (assigned : List (Name × String)) (name : Name) : String :=
  (assigned.lookup name).getD name

theorem lookup_map_of_mem {f : Nat → Name} {g : Nat → String} {list : List Nat} {i : Nat}
    (hi : i ∈ list) (hinj : ∀ j ∈ list, f j = f i → j = i) :
    (list.map fun j => (f j, g j)).lookup (f i) = some (g i) := by
  induction list with
  | nil => simp at hi
  | cons j rest ih =>
      rw [List.map_cons, List.lookup_cons]
      by_cases hji : f i = f j
      · rw [hinj j (List.mem_cons_self ..) hji.symm]
        simp
      · rw [beq_false_of_ne hji]
        have hi' : i ∈ rest := (List.mem_cons.1 hi).resolve_left fun h => hji (by rw [h])
        exact ih hi' fun k hk => hinj k (List.mem_cons_of_mem _ hk)

theorem lookup_map_of_not_mem {f : Nat → Name} {g : Nat → String} {list : List Nat} {name : Name}
    (h : ∀ j ∈ list, f j ≠ name) : (list.map fun j => (f j, g j)).lookup name = none := by
  rw [List.lookup_eq_none_iff]
  intro p hp
  obtain ⟨j, hj, rfl⟩ := List.mem_map.1 hp
  exact bne_iff_ne.2 (Ne.symm (h j hj))

namespace Graph

variable {graph : Graph} {options : ColouringOptions} {function : String} {optimistic : Nat}
  {assigned : List (Name × String)}

/-- The place of a name is the register of its colour. -/
theorem place_eq (hsimple : graph.Simple) (hnodup : graph.vocabulary.names.Nodup)
    {colours : List (Option Nat)} (hchosen : graph.Chosen colours graph.variableNodes)
    (hall : ∀ node ∈ graph.variableNodes, ∃ colour, colourOf colours node = some colour)
    {i : Nat} (hi : i < graph.size) :
    ∃ colour, colourOf colours i = some colour ∧ Register.generalPurpose[colour]? =
      some (place (graph.registersOf colours) (graph.vocabulary.name i)) := by
  by_cases hregister : graph.vocabulary.name i ∈ Register.generalPurpose
  · have hnone : (graph.registersOf colours).lookup (graph.vocabulary.name i) = none := by
      apply lookup_map_of_not_mem
      intro j hj h
      exact (mem_variableNodes.1 hj).2 (h ▸ hregister)
    obtain ⟨colour, hcolour⟩ := exists_colour hregister
    refine ⟨colour, by rw [hchosen.register i hi hregister, hcolour], ?_⟩
    rw [place, hnone, Option.getD_none, idxOf?_register hcolour]
  · have hmem := mem_variableNodes.2 ⟨hi, hregister⟩
    obtain ⟨colour, hcolour⟩ := hall i hmem
    have hlt : colour < Register.generalPurpose.length := hchosen.colour_lt i colour hcolour
    refine ⟨colour, hcolour, ?_⟩
    rw [place, registersOf, lookup_map_of_mem hmem, hcolour, Option.bind_some,
      List.getElem?_eq_getElem hlt, Option.getD_some, Option.getD_some]
    intro j hj h
    have hjlt := (mem_variableNodes.1 hj).1
    rw [hsimple.size_eq] at hi hjlt
    exact (Vocabulary.name_inj hnodup hjlt hi).1 h

variable (hsimple : graph.Simple) (hnodup : graph.vocabulary.names.Nodup)
  (h : graph.colour function options = .ok ⟨.registers assigned, optimistic⟩)

include hsimple hnodup h

/-- **Every name has a general purpose register.** -/
theorem place_mem {name : Name} (hname : name ∈ graph.vocabulary.names) :
    place assigned name ∈ Register.generalPurpose := by
  obtain ⟨colours, hchosen, hall, rfl⟩ := colour_registers hsimple hnodup h
  obtain ⟨i, hi⟩ := Vocabulary.exists_index? hname
  obtain ⟨colour, -, hplace⟩ :=
    place_eq hsimple hnodup hchosen hall (hsimple.size_eq ▸ Vocabulary.lt_of_index? hi)
  rw [Vocabulary.name_of_index? hi] at hplace
  exact List.mem_of_getElem? hplace

/-- A general purpose register keeps its place. -/
theorem place_register {name : Name} (hname : name ∈ Register.generalPurpose) :
    place assigned name = name := by
  obtain ⟨colours, -, -, rfl⟩ := colour_registers hsimple hnodup h
  rw [place, registersOf, lookup_map_of_not_mem, Option.getD_none]
  intro j hj hj'
  exact (mem_variableNodes.1 hj).2 (hj' ▸ hname)

/-- **Conflicting names have different registers.** -/
theorem place_ne {u w : Name} (huw : graph.interferes u w = true) :
    place assigned u ≠ place assigned w := by
  obtain ⟨colours, hchosen, hall, rfl⟩ := colour_registers hsimple hnodup h
  unfold interferes at huw
  split at huw
  · next i j hi hj =>
    have hrow : j ∈ graph.row i := by simpa using huw
    obtain ⟨a, ha, hu⟩ :=
      place_eq hsimple hnodup hchosen hall (hsimple.size_eq ▸ Vocabulary.lt_of_index? hi)
    obtain ⟨b, hb, hw⟩ :=
      place_eq hsimple hnodup hchosen hall (hsimple.size_eq ▸ Vocabulary.lt_of_index? hj)
    rw [Vocabulary.name_of_index? hi] at hu
    rw [Vocabulary.name_of_index? hj] at hw
    intro heq
    rw [← heq, ← hu] at hw
    have hlt := hchosen.colour_lt j b hb
    have hab : b = a := (List.getElem?_inj hlt Register.nodup_generalPurpose).1 hw
    exact hchosen.proper i j a hrow ha (hab ▸ hb)
  · simp at huw

end Graph

end RegisterColouring
