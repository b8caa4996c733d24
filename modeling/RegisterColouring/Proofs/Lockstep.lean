/-
**Two allocations of a function, round by round.**

The same function can be allocated with different supplies of names.  Let the temporaries of the two
allocations be paired in the order in which they are introduced.  As long as the names of paired
temporaries compare alike, with each other and with the variables of the function, neither
allocation does anything that the other does not: each round finds the same conflicts, removes the
same variables in the same order, and spills the same ones to the same cells.  So both take the same
number of rounds, and end with the same code and the same registers but for the names of
temporaries.

Main definitions:

* `RegisterColouring.Allocation.counterpart` — the temporary of another allocation in the same
  place;
* `RegisterColouring.Allocation.CompareAlike` — when names of temporaries compare alike;
* `RegisterColouring.Allocation.InStep` — two allocations that have done the same so far.

Main results:

* `RegisterColouring.Function.spill_relabel` — **spilling commutes with renaming**;
* `RegisterColouring.Allocation.InStep.attempt_relabel` — a round tries the same in both
  allocations;
* `RegisterColouring.Allocation.InStep.rounds` — **allocations in step stay in step**.
-/

import RegisterColouring.Proofs.Recolouring
import RegisterColouring.Proofs.Temporaries

set_option autoImplicit false

namespace RegisterColouring

/-! ### Spilling -/

namespace Spill

/-- A replacement by another temporary. -/
def Replacement.relabel (image : String → String) (r : Replacement) : Replacement :=
  { r with temporary := image r.temporary }

/-- Some variables keep their names, and no other variable is given one of them. -/
structure Fixes (image : String → String) (vars : List String) (targets : List Name) : Prop where
  apart : KeepsApart image vars
  fixed : ∀ name ∈ targets, ∃ v ∈ vars, image v = v ∧ name = Name.ofVariable v

variable {image : String → String} {vars : List String} {targets : List Name}
  {instruction : Instruction} {replacements : List Replacement}

namespace Fixes

theorem rename_eq (h : Fixes image vars targets) {name : Name} (hname : name ∈ targets) :
    Name.rename image name = name := by
  obtain ⟨v, -, hfixed, rfl⟩ := h.fixed name hname
  rw [Name.rename_ofVariable, hfixed]

/-- A renamed variable is a target exactly if it was one. -/
theorem eq_iff (h : Fixes image vars targets) {name : Name} (hname : name ∈ targets) {v : String}
    (hv : v ∈ vars) : name = Name.ofVariable (image v) ↔ name = Name.ofVariable v := by
  obtain ⟨u, hu, hfixed, rfl⟩ := h.fixed name hname
  rw [Name.ofVariable_inj, Name.ofVariable_inj]
  constructor
  · intro heq
    exact h.apart u hu v hv (hfixed.trans heq)
  · rintro rfl
    exact hfixed.symm

theorem mem_iff (h : Fixes image vars targets) {v : String} (hv : v ∈ vars) :
    Name.ofVariable (image v) ∈ targets ↔ Name.ofVariable v ∈ targets := by
  constructor
  · intro hmem
    rwa [← (h.eq_iff hmem hv).1 rfl]
  · intro hmem
    rwa [← (h.eq_iff hmem hv).2 rfl]

/-- The same variables are spilled from a renamed instruction. -/
theorem victims_rename (h : Fixes image vars targets) (hregular : instruction.isRegular = true)
    (hvars : ∀ v ∈ instruction.vars, v ∈ vars) :
    victims targets (instruction.rename image) = victims targets instruction := by
  have hmap : (instruction.vars.map fun v => Name.ofVariable (image v)).filter targets.contains =
      (instruction.vars.map Name.ofVariable).filter targets.contains := by
    rw [List.filter_map, List.filter_map]
    have hfilter : instruction.vars.filter (targets.contains ∘ fun v => Name.ofVariable (image v)) =
        instruction.vars.filter (targets.contains ∘ Name.ofVariable) := by
      apply List.filter_congr
      intro v hv
      simp [h.mem_iff (hvars v hv)]
    rw [hfilter]
    apply List.map_congr_left
    intro v hv
    rw [List.mem_filter, Function.comp_apply, List.contains_iff_mem] at hv
    exact ((h.eq_iff hv.2 (hvars v hv.1)).2 rfl).symm
  rw [victims, victims, Instruction.vars_rename hregular, List.map_map, Function.comp_def, hmap]

theorem contains_rename (h : Fixes image vars targets) {names : List Name}
    (hknown : ∀ name ∈ names, name ∈ (Vocabulary.ofVariables vars).names) {name : Name}
    (hname : name ∈ targets) :
    (names.map (Name.rename image)).contains name = names.contains name := by
  have hmem : name ∈ (Vocabulary.ofVariables vars).names := by
    obtain ⟨v, hv, -, rfl⟩ := h.fixed name hname
    exact Vocabulary.mem_names_ofVariables.2 (Or.inr ⟨v, hv, rfl⟩)
  rw [Bool.eq_iff_iff, List.contains_iff_mem, List.contains_iff_mem, List.mem_map]
  constructor
  · rintro ⟨other, hother, heq⟩
    rw [← h.rename_eq hname] at heq
    rwa [← Name.rename_inj h.apart (hknown other hother) hmem heq]
  · intro hin
    exact ⟨name, hin, h.rename_eq hname⟩

/-- A variable is replaced by a temporary in the same place. -/
theorem image_rename (h : Fixes image vars targets)
    (hvictims : ∀ r ∈ replacements, r.victim ∈ targets) {v : String} (hv : v ∈ vars) :
    Spill.image (replacements.map (Replacement.relabel image)) (image v) =
      image (Spill.image replacements v) := by
  induction replacements with
  | nil => rfl
  | cons r rest ih =>
      rw [List.forall_mem_cons] at hvictims
      have hiff := h.eq_iff hvictims.1 hv
      by_cases hr : r.victim = Name.ofVariable v
      · have hr' := hiff.2 hr
        simp [Spill.image, Replacement.relabel, hr, ← hr']
      · have hr' := mt hiff.1 hr
        have hrest := ih hvictims.2
        simpa [Spill.image, Replacement.relabel, hr, hr'] using hrest

/-- **The code that takes the place of a renamed instruction.** -/
theorem expand_rename (h : Fixes image vars targets) (hregular : instruction.isRegular = true)
    (hvars : ∀ v ∈ instruction.vars, v ∈ vars)
    (hvictims : ∀ r ∈ replacements, r.victim ∈ targets) :
    expand (replacements.map (Replacement.relabel image)) (instruction.rename image) =
      (expand replacements instruction).map (Instruction.rename image) := by
  have hknown : ∀ name, name ∈ instruction.gen ∨ name ∈ instruction.kill →
      name ∈ (Vocabulary.ofVariables vars).names := by
    intro name hname
    rw [Vocabulary.mem_names_ofVariables]
    refine (Instruction.tracked_of_isRegular hregular hname).imp_right ?_
    rintro ⟨v, hv, rfl⟩
    exact ⟨v, hvars v hv, rfl⟩
  have hselect : ∀ names : List Name, (∀ name ∈ names, name ∈ (Vocabulary.ofVariables vars).names) →
      (replacements.map (Replacement.relabel image)).filter
          (fun r => (names.map (Name.rename image)).contains r.victim) =
        (replacements.filter fun r => names.contains r.victim).map (Replacement.relabel image) := by
    intro names hnames
    rw [List.filter_map]
    congr 1
    apply List.filter_congr
    intro r hr
    exact h.contains_rename hnames (hvictims r hr)
  have hcore : (instruction.rename image).rename
      (Spill.image (replacements.map (Replacement.relabel image))) =
      (instruction.rename (Spill.image replacements)).rename image := by
    rw [Instruction.rename_rename, Instruction.rename_rename]
    exact Instruction.rename_congr fun v hv => h.image_rename hvictims (hvars v hv)
  rw [expand, expand, Instruction.gen_rename hregular, Instruction.kill_rename hregular, hcore,
    hselect _ fun name hname => hknown name (Or.inl hname),
    hselect _ fun name hname => hknown name (Or.inr hname), List.map_append, List.map_cons,
    List.map_map, List.map_map, List.map_map, List.map_map]
  rfl

end Fixes

/-! ### Spilling with another supply of names -/

/-- Cells are given to variables in the same way, whatever the names of temporaries. -/
theorem replaceAll_alike {state state' : State} (hlocals : state'.locals = state.locals)
    (hslots : state'.slots = state.slots) (names : List Name) :
    (state'.replaceAll names).2.locals = (state.replaceAll names).2.locals ∧
      (state'.replaceAll names).2.slots = (state.replaceAll names).2.slots ∧
      (state'.replaceAll names).1.map Replacement.offset =
        (state.replaceAll names).1.map Replacement.offset := by
  induction names generalizing state state' with
  | nil => exact ⟨hlocals, hslots, rfl⟩
  | cons victim rest ih =>
      have hslot : (state'.replace victim).2.locals = (state.replace victim).2.locals ∧
          (state'.replace victim).2.slots = (state.replace victim).2.slots ∧
          (state'.replace victim).1.offset = (state.replace victim).1.offset := by
        simp only [State.replace, State.slot, hslots, hlocals]
        split
        · exact ⟨hlocals, hslots, rfl⟩
        · exact ⟨rfl, rfl, rfl⟩
      obtain ⟨hlocals', hslots', hoffset⟩ := hslot
      obtain ⟨hlocals'', hslots'', hrest⟩ := ih hlocals' hslots'
      refine ⟨hlocals'', hslots'', ?_⟩
      rw [State.replaceAll, State.replaceAll, List.map_cons, List.map_cons, hoffset, hrest]

/-- A replacement is made of a victim, a temporary and a cell. -/
theorem eq_map_relabel {left right : List Replacement}
    (hvictim : right.map Replacement.victim = left.map Replacement.victim)
    (hoffset : right.map Replacement.offset = left.map Replacement.offset)
    (htemporary : temporaries right = (temporaries left).map image) :
    right = left.map (Replacement.relabel image) := by
  induction left generalizing right with
  | nil => exact List.map_eq_nil_iff.1 hvictim
  | cons r left ih =>
      cases right with
      | nil => simp at hvictim
      | cons s right =>
          simp only [temporaries, List.map_cons, List.cons.injEq] at hvictim hoffset htemporary
          rw [List.map_cons, ← ih hvictim.2 hoffset.2 htemporary.2]
          congr 1
          rw [Replacement.relabel, ← hvictim.1, ← hoffset.1, ← htemporary.1]

theorem length_temporaries_replaceAll (state : State) (names : List Name) :
    (temporaries (state.replaceAll names).1).length = names.length := by
  rw [temporaries, List.length_map, ← List.length_map (f := Replacement.victim), victims_replaceAll]

/-- Which variables are replaced, instruction by instruction, is a matter of the code. -/
theorem victims_flatten_plan (targets : List Name) (state : State) (list : List Instruction) :
    (plan targets state list).flatten.map Replacement.victim = list.flatMap (victims targets) := by
  induction list generalizing state with
  | nil => rfl
  | cons instruction rest ih =>
      rw [plan, List.flatten_cons, List.map_append, List.flatMap_cons, victims_replaceAll, ih]

/-- **Spilling from renamed code**, if the temporaries are those of the code, renamed. -/
theorem Fixes.code_rename (h : Fixes image vars targets) {list : List Instruction}
    (hregular : ∀ instruction ∈ list, instruction.isRegular = true)
    (hvars : ∀ instruction ∈ list, ∀ v ∈ instruction.vars, v ∈ vars) {state state' : State}
    (hlocals : state'.locals = state.locals) (hslots : state'.slots = state.slots)
    (htemporaries :
      temporaries (plan targets state' (list.map (Instruction.rename image))).flatten =
        (temporaries (plan targets state list).flatten).map image) :
    (code targets state' (list.map (Instruction.rename image))).1 =
        (code targets state list).1.map (Instruction.rename image) ∧
      (code targets state' (list.map (Instruction.rename image))).2.locals =
        (code targets state list).2.locals := by
  -- along the code; an instruction takes as many temporaries in both, so the lists split alike
  induction list generalizing state state' with
  | nil => exact ⟨rfl, hlocals⟩
  | cons instruction rest ih =>
      rw [List.forall_mem_cons] at hregular hvars
      have hvictims := h.victims_rename hregular.1 hvars.1
      obtain ⟨hlocals', hslots', hoffset⟩ :=
        replaceAll_alike hlocals hslots (victims targets instruction)
      simp only [List.map_cons, plan, hvictims, List.flatten_cons, temporaries,
        List.map_append] at htemporaries
      have hlength : (temporaries (state'.replaceAll (victims targets instruction)).1).length =
          ((temporaries (state.replaceAll (victims targets instruction)).1).map image).length := by
        rw [List.length_map, length_temporaries_replaceAll, length_temporaries_replaceAll]
      obtain ⟨hhere, hrest⟩ := List.append_inj htemporaries hlength
      have hreplacements := eq_map_relabel
        ((victims_replaceAll state' _).trans (victims_replaceAll state _).symm) hoffset hhere
      obtain ⟨hcode, hend⟩ := ih hregular.2 hvars.2 hlocals' hslots' hrest
      have htargets : ∀ r ∈ (state.replaceAll (victims targets instruction)).1,
          r.victim ∈ targets := by
        intro r hr
        have hmem := List.mem_map_of_mem (f := Replacement.victim) hr
        rw [victims_replaceAll, mem_victims] at hmem
        exact hmem.1
      rw [List.map_cons, code, code, hvictims]
      refine ⟨?_, hend⟩
      rw [List.map_append, ← h.expand_rename hregular.1 hvars.1 htargets, ← hreplacements, ← hcode]

end Spill

namespace Function

variable {image : String → String} {function : Function} {targets : List Name}

theorem length_temporaries_spill (names : NameSupply) :
    (function.spill targets names).temporaries.length =
      (function.code.flatMap (Spill.victims targets)).length := by
  rw [temporaries_spill, List.length_map, Spill.temporaries, List.length_map, spillPlan,
    ← Spill.victims_flatten_plan targets ⟨function.locals, [], names, []⟩, List.length_map]

/-- As many temporaries are introduced when variables are renamed. -/
theorem length_temporaries_relabel (hregular : function.Regular)
    (h : Spill.Fixes image function.vars targets) (names names' : NameSupply) :
    ((function.relabel image).spill targets names').temporaries.length =
      (function.spill targets names).temporaries.length := by
  have hvictims : (function.code.map (Instruction.rename image)).flatMap (Spill.victims targets) =
      function.code.flatMap (Spill.victims targets) := by
    rw [List.flatMap_map]
    apply List.flatMap_congr
    intro instruction hmem
    exact h.victims_rename (hregular instruction hmem)
      fun v hv => mem_vars.2 ⟨instruction, hmem, hv⟩
  rw [length_temporaries_spill, length_temporaries_spill, relabel, hvictims]

/-- **Spilling commutes with renaming**, if the temporaries are renamed too. -/
theorem spill_relabel (hregular : function.Regular) (h : Spill.Fixes image function.vars targets)
    {names names' : NameSupply}
    (htemporaries : ((function.relabel image).spill targets names').temporaries =
      (function.spill targets names).temporaries.map (Name.rename image)) :
    ((function.relabel image).spill targets names').function =
      (function.spill targets names).function.relabel image := by
  rw [temporaries_spill, temporaries_spill, List.map_map] at htemporaries
  have hdrawn : Spill.temporaries ((function.relabel image).spillPlan targets names').flatten =
      (Spill.temporaries (function.spillPlan targets names).flatten).map image := by
    have hinj : Function.Injective Name.ofVariable := fun v w heq => Name.ofVariable_inj.1 heq
    apply hinj.list_map
    rw [htemporaries, List.map_map]
    exact List.map_congr_left fun t _ => Name.rename_ofVariable t
  let state : Spill.State := ⟨function.locals, [], names, []⟩
  let state' : Spill.State := ⟨function.locals, [], names', []⟩
  have hcode : (Spill.code targets state' (function.code.map (Instruction.rename image))).1 =
        (Spill.code targets state function.code).1.map (Instruction.rename image) ∧
      (Spill.code targets state' (function.code.map (Instruction.rename image))).2.locals =
        (Spill.code targets state function.code).2.locals :=
    h.code_rename hregular (fun instruction hmem v hv => mem_vars.2 ⟨instruction, hmem, hv⟩) rfl rfl
      hdrawn
  rw [spill, spill, relabel, relabel]
  simp only [Function.mk.injEq, true_and]
  exact ⟨hcode.2, hcode.1⟩

end Function

/-! ### Temporaries in pairs -/

namespace Allocation

/-- The temporary of another allocation that is introduced in the same place; other variables stand
for themselves. -/
def counterpart (issued issued' : List Name) (v : String) : String :=
  match (issued.idxOf? (Name.ofVariable v)).bind fun j => issued'[j]? with
  | some name => Name.unsigiled name
  | none => v

/-- **The temporaries of two allocations compare alike**, with each other and with the variables of
the function. -/
structure CompareAlike (vars : List String) (issued issued' : List Name) : Prop where
  together : ∀ s ∈ issued.zip issued', ∀ t ∈ issued.zip issued', (s.2 < t.2 ↔ s.1 < t.1)
  apart : ∀ t ∈ issued.zip issued', ∀ v ∈ vars,
    (t.2 < Name.ofVariable v ↔ t.1 < Name.ofVariable v)

variable {issued issued' : List Name} {vars : List String} {v t t' : String} {j : Nat}

theorem counterpart_of_not_mem (h : Name.ofVariable v ∉ issued) :
    counterpart issued issued' v = v := by
  rw [counterpart, List.idxOf?_eq_none_iff.2 h]
  rfl

theorem counterpart_of_getElem? (hnodup : issued.Nodup)
    (ht : issued[j]? = some (Name.ofVariable t)) (ht' : issued'[j]? = some (Name.ofVariable t')) :
    counterpart issued issued' t = t' := by
  have hindex : (⟨issued⟩ : Vocabulary).index? (Name.ofVariable t) = some j :=
    (Vocabulary.index?_eq_some_iff hnodup).2 ht
  rw [Vocabulary.index?] at hindex
  rw [counterpart, hindex, Option.bind_some, ht']
  simp [Name.unsigiled]

theorem getElem?_of_isPrefix {names : List Name} (h : names <+: issued) {name : Name}
    (hj : names[j]? = some name) : issued[j]? = some name := by
  obtain ⟨rest, rfl⟩ := h
  rw [List.getElem?_append_left (List.getElem?_eq_some_iff.1 hj).1, hj]

theorem lt_iff_not_lt {a b : String} (hne : a ≠ b) : a < b ↔ ¬ b < a := by
  constructor
  · exact String.lt_asymm
  · intro hba
    by_contra hab
    exact hne (String.le_antisymm (String.not_lt.1 hba) (String.not_lt.1 hab))

/-- **Temporaries in pairs**: they are different from each other and from the variables of a
function, and compare alike. -/
structure Paired (vars : List String) (issued issued' : List Name) : Prop where
  nodup : issued.Nodup
  left : ∀ name ∈ issued, ∃ t ∉ vars, name = Name.ofVariable t
  right : ∀ name ∈ issued', ∃ t ∉ vars, name = Name.ofVariable t
  alike : CompareAlike vars issued issued'

theorem not_mem_of_fresh {names : List Name}
    (h : ∀ name ∈ names, ∃ t ∉ vars, name = Name.ofVariable t) (hv : v ∈ vars) :
    Name.ofVariable v ∉ names := by
  intro hmem
  obtain ⟨t, ht, heq⟩ := h _ hmem
  exact ht (Name.ofVariable_inj.1 heq ▸ hv)

namespace Paired

/-- A variable of the function stands for itself. -/
theorem counterpart_eq_self (h : Paired vars issued issued') (hv : v ∈ vars) :
    counterpart issued issued' v = v :=
  counterpart_of_not_mem (not_mem_of_fresh h.left hv)

/-- The temporaries so far stand for those of the other allocation. -/
theorem map_counterpart (h : Paired vars issued issued') {names names' : List Name}
    (hnames : names <+: issued) (hnames' : names' <+: issued')
    (hlength : names'.length = names.length) :
    names' = names.map (Name.rename (counterpart issued issued')) := by
  apply List.ext_getElem?
  intro j
  rw [List.getElem?_map]
  cases hj : names[j]? with
  | none =>
      rw [List.getElem?_eq_none_iff] at hj
      rw [Option.map_none, List.getElem?_eq_none_iff, hlength]
      exact hj
  | some name =>
      have hlt : j < names'.length := by
        rw [hlength]
        exact (List.getElem?_eq_some_iff.1 hj).1
      obtain ⟨t, -, rfl⟩ := h.left _ (hnames.subset (List.mem_of_getElem? hj))
      have hj' := List.getElem?_eq_getElem hlt
      obtain ⟨t', -, ht'⟩ := h.right _ (hnames'.subset (List.mem_of_getElem? hj'))
      rw [ht'] at hj'
      rw [hj', Option.map_some, Name.rename_ofVariable, counterpart_of_getElem? h.nodup
        (getElem?_of_isPrefix hnames hj) (getElem?_of_isPrefix hnames' hj')]

/-- A temporary and its counterpart are a pair. -/
theorem mem_zip (h : Paired vars issued issued') {names : List Name} (hnames : names <+: issued)
    (hlength : names.length ≤ issued'.length) (ht : Name.ofVariable t ∈ names) :
    (Name.ofVariable t, Name.ofVariable (counterpart issued issued' t)) ∈ issued.zip issued' ∧
      t ∉ vars ∧ counterpart issued issued' t ∉ vars := by
  obtain ⟨j, hj⟩ := List.mem_iff_getElem?.1 ht
  have hlt : j < issued'.length := by
    have := (List.getElem?_eq_some_iff.1 hj).1
    omega
  have hj' := List.getElem?_eq_getElem hlt
  obtain ⟨t', hfresh', ht'⟩ := h.right _ (List.mem_of_getElem? hj')
  obtain ⟨u, hfresh, hu⟩ := h.left _ (hnames.subset ht)
  rw [ht'] at hj'
  rw [counterpart_of_getElem? h.nodup (getElem?_of_isPrefix hnames hj) hj']
  refine ⟨?_, Name.ofVariable_inj.1 hu ▸ hfresh, hfresh'⟩
  exact List.mem_of_getElem? (List.getElem?_zip_eq_some.2 ⟨getElem?_of_isPrefix hnames hj, hj'⟩)

/-- **Names compare as before** when temporaries are replaced by their counterparts. -/
theorem keepsOrder (h : Paired vars issued issued') {names : List Name} (hnames : names <+: issued)
    (hlength : names.length ≤ issued'.length) {known : List String}
    (hknown : ∀ v ∈ known, v ∈ vars ∨ Name.ofVariable v ∈ names) :
    KeepsOrder (counterpart issued issued') known := by
  intro v hv w hw
  rcases hknown v hv with hv | hv <;> rcases hknown w hw with hw | hw
  · rw [h.counterpart_eq_self hv, h.counterpart_eq_self hw]
  · obtain ⟨hpair, hfresh, hfresh'⟩ := h.mem_zip hnames hlength hw
    have hne : ∀ u, u ∉ vars → Name.ofVariable v ≠ Name.ofVariable u := by
      intro u hu heq
      exact hu (Name.ofVariable_inj.1 heq ▸ hv)
    rw [h.counterpart_eq_self hv, lt_iff_not_lt (hne _ hfresh'), lt_iff_not_lt (hne _ hfresh)]
    exact not_congr (h.alike.apart _ hpair v hv)
  · rw [h.counterpart_eq_self hw]
    exact h.alike.apart _ (h.mem_zip hnames hlength hv).1 w hw
  · exact h.alike.together _ (h.mem_zip hnames hlength hv).1 _ (h.mem_zip hnames hlength hw).1

end Paired

/-! ### Rounds in step -/

/-- **Two allocations in step**: they have done the same so far, up to the names of temporaries. -/
structure InStep (image : String → String) (p p' : Progress) : Prop where
  function_eq : p'.function = p.function.relabel image
  unspillable_eq : p'.unspillable = p.unspillable.map (Name.rename image)
  spilled_eq : p'.spilled = p.spilled

variable {config : AllocationConfig} {function : Function} {names : NameSupply}
  {p p' q q' last last' : Progress} {attempt attempt' : Attempt}

/-- What a round tries, from the analysis and the colouring. -/
theorem attempt_of_colour {result : Liveness} {assignment : Assignment} {optimistic : Nat}
    (hresult : Liveness.analyse p.function = .ok result)
    (hcolour : (Graph.ofLiveness result).colour p.function.name ⟨config.heuristic, p.unspillable⟩ =
      .ok ⟨assignment, optimistic⟩) :
    ∃ attempt, p.attempt config = .ok attempt ∧ attempt.assignment = assignment := by
  refine ⟨⟨(Graph.ofLiveness result).size, result.passes, assignment⟩, ?_, rfl⟩
  simp only [Progress.attempt, Allocation.attempt, hresult, hcolour]

theorem Round.isPrefix (h : Round config p q) : p.unspillable <+: q.unspillable := by
  obtain ⟨ts, hts, -⟩ := h.drawn
  exact ⟨_, hts.symm⟩

theorem Rounds.isPrefix {k : Nat} (h : Rounds config k p q) : p.unspillable <+: q.unspillable := by
  obtain ⟨ts, hts, -⟩ := h.drawn
  exact ⟨_, hts.symm⟩

theorem Rounds.exists_head {k : Nat} (h : Rounds config (k + 1) p last) :
    ∃ q, Round config p q ∧ Rounds config k q last := by
  induction k generalizing last with
  | zero =>
      obtain _ | ⟨hrounds, hround⟩ := h
      cases hrounds
      exact ⟨_, hround, Rounds.refl _⟩
  | succ k ih =>
      obtain _ | ⟨hrounds, hround⟩ := h
      obtain ⟨q, hfirst, hrest⟩ := ih hrounds
      exact ⟨q, hfirst, hrest.tail hround⟩

namespace InStep

section Round

variable (h : InStep (counterpart issued issued') p p') (hsound : Sound function names p)
  (hpaired : Paired function.vars issued issued') (hp : p.unspillable <+: issued)
  (hp' : p'.unspillable <+: issued')

include h hsound hpaired hp hp'

/-- The names in the code compare as their counterparts. -/
theorem keepsOrder : KeepsOrder (counterpart issued issued') p.function.vars := by
  apply hpaired.keepsOrder hp _ hsound.vars
  have hlength := hp'.length_le
  rwa [h.unspillable_eq, List.length_map] at hlength

/-- Colouring does not notice the names of temporaries. -/
theorem unnoticed {result : Liveness} (hresult : Liveness.analyse p.function = .ok result) :
    Graph.Unnoticed (counterpart issued issued') (Graph.ofLiveness result) p.function.vars
      ⟨config.heuristic, p.unspillable⟩ ⟨config.heuristic, p'.unspillable⟩ := by
  have hanalysed := Liveness.analysed_of_analyse hresult
  refine ⟨Graph.simple_ofLiveness hanalysed, ?_, h.keepsOrder hsound hpaired hp hp', rfl, ?_⟩
  · rw [Graph.vocabulary_ofLiveness, hanalysed.vocabulary_eq, Vocabulary.ofFunction]
  · intro v hv
    rcases hsound.vars v hv with hv | hv
    · -- a variable of the function is no temporary of either allocation
      have hnot : Name.ofVariable v ∉ p.unspillable := fun hmem =>
        not_mem_of_fresh hpaired.left hv (hp.subset hmem)
      have hnot' : Name.ofVariable v ∉ p'.unspillable := fun hmem =>
        not_mem_of_fresh hpaired.right hv (hp'.subset hmem)
      rw [hpaired.counterpart_eq_self hv]
      exact iff_of_false hnot' hnot
    · rw [← Name.rename_ofVariable, h.unspillable_eq]
      exact iff_of_true (List.mem_map_of_mem hv) hv

/-- **A round tries the same** in both allocations. -/
theorem attempt_relabel {attempt : Attempt} (hattempt : p.attempt config = .ok attempt) :
    ∃ attempt', p'.attempt config = .ok attempt' ∧
      attempt'.assignment = attempt.assignment.relabel (counterpart issued issued') := by
  obtain ⟨result, optimistic, hresult, hcolour⟩ := attempt_eq_ok hattempt
  have hapart := (h.keepsOrder hsound hpaired hp hp').keepsApart
  have hresult' := Liveness.analyse_relabel hsound.regular hapart hresult
  have hcolour' := (h.unnoticed hsound hpaired hp hp' hresult).colour_eq hcolour
  rw [← Graph.ofLiveness_relabel hsound.regular hapart hresult] at hcolour'
  have hname : p'.function.name = p.function.name := by
    rw [h.function_eq]
    rfl
  rw [← h.function_eq] at hresult'
  rw [← hname] at hcolour'
  exact attempt_of_colour hresult' hcolour'

/-- Variables of the function that are spilled keep their names. -/
theorem fixes {attempt : Attempt} {spills : List Name}
    (hattempt : p.attempt config = .ok attempt)
    (hspills : attempt.assignment = .spills spills) :
    Spill.Fixes (counterpart issued issued') p.function.vars spills := by
  refine ⟨(h.keepsOrder hsound hpaired hp hp').keepsApart, ?_⟩
  intro name hname
  obtain ⟨-, v, hv, hvp, rfl⟩ := (hsound.spills hattempt hspills).2 name hname
  exact ⟨v, hvp, hpaired.counterpart_eq_self hv, rfl⟩

end Round

/-- **A round keeps allocations in step.** -/
theorem round (h : InStep (counterpart issued issued') p p') (hsound : Sound function names p)
    (hpaired : Paired function.vars issued issued') (hround : Round config p q)
    (hround' : Round config p' q') (hq : q.unspillable <+: issued)
    (hq' : q'.unspillable <+: issued') : InStep (counterpart issued issued') q q' := by
  have hp := hround.isPrefix.trans hq
  have hp' := hround'.isPrefix.trans hq'
  obtain ⟨attempt, spills, event, hattempt, hspills, rfl⟩ := hround
  obtain ⟨attempt', spills', event', hattempt', hspills', rfl⟩ := hround'
  have hfixes := h.fixes hsound hpaired hp hp' hattempt hspills
  -- the other allocation spills the same variables
  have hsame : spills' = spills := by
    obtain ⟨again, hagain, hassignment⟩ := h.attempt_relabel hsound hpaired hp hp' hattempt
    obtain rfl := Except.ok.inj (hattempt'.symm.trans hagain)
    rw [hspills', hspills, Assignment.relabel, Assignment.spills.injEq] at hassignment
    rw [hassignment, List.map_congr_left fun name hname => hfixes.rename_eq hname, List.map_id']
  subst hsame
  -- and introduces as many temporaries
  have hlength : (p'.spill spills' event').unspillable.length =
      (p.spill spills' event).unspillable.length := by
    rw [Progress.spill, Progress.spill, List.length_append, List.length_append, h.unspillable_eq,
      h.function_eq, List.length_map,
      Function.length_temporaries_relabel hsound.regular hfixes p.names p'.names]
  have hunspillable := hpaired.map_counterpart hq hq' hlength
  have htemporaries : (p'.function.spill spills' p'.names).temporaries =
      (p.function.spill spills' p.names).temporaries.map
        (Name.rename (counterpart issued issued')) := by
    rw [Progress.spill, Progress.spill, List.map_append, h.unspillable_eq] at hunspillable
    exact List.append_cancel_left hunspillable
  rw [h.function_eq] at htemporaries
  refine ⟨?_, hunspillable, by rw [Progress.spill, Progress.spill, h.spilled_eq]⟩
  rw [Progress.spill, Progress.spill, h.function_eq]
  exact Function.spill_relabel hsound.regular hfixes htemporaries

/-- **Allocations in step stay in step** to the end, and come to it at the same time. -/
theorem rounds {k k' : Nat} {assigned assigned' : List (Name × String)}
    (h : InStep (counterpart last.unspillable last'.unspillable) p p')
    (hsound : Sound function names p) (havoids : ∀ v ∈ function.vars, names.Avoids v)
    (hpaired : Paired function.vars last.unspillable last'.unspillable)
    (hrounds : Rounds config k p last) (hrounds' : Rounds config k' p' last')
    (hattempt : last.attempt config = .ok attempt)
    (hassigned : attempt.assignment = .registers assigned)
    (hattempt' : last'.attempt config = .ok attempt')
    (hassigned' : attempt'.assignment = .registers assigned') :
    k' = k ∧ InStep (counterpart last.unspillable last'.unspillable) last last' ∧
      attempt'.assignment =
        attempt.assignment.relabel (counterpart last.unspillable last'.unspillable) := by
  induction k generalizing p p' k' with
  | zero =>
      cases hrounds
      obtain ⟨again, hagain, hassignment⟩ :=
        h.attempt_relabel hsound hpaired List.prefix_rfl hrounds'.isPrefix hattempt
      cases k' with
      | zero =>
          cases hrounds'
          obtain rfl := Except.ok.inj (hattempt'.symm.trans hagain)
          exact ⟨rfl, h, hassignment⟩
      | succ k' =>
          -- the first allocation is over, so the other does not spill
          obtain ⟨q', ⟨spilling, spills, -, hspilling, hspills, -⟩, -⟩ := hrounds'.exists_head
          obtain rfl := Except.ok.inj (hspilling.symm.trans hagain)
          rw [hspills, hassigned] at hassignment
          simp [Assignment.relabel] at hassignment
  | succ k ih =>
      obtain ⟨q, hround, hrest⟩ := hrounds.exists_head
      have hround₀ := hround
      obtain ⟨spilling, spills, -, hspilling, hspills, -⟩ := hround
      cases k' with
      | zero =>
          cases hrounds'
          obtain ⟨again, hagain, hassignment⟩ :=
            h.attempt_relabel hsound hpaired hrounds.isPrefix List.prefix_rfl hspilling
          obtain rfl := Except.ok.inj (hattempt'.symm.trans hagain)
          rw [hassigned', hspills] at hassignment
          simp [Assignment.relabel] at hassignment
      | succ k' =>
          obtain ⟨q', hround', hrest'⟩ := hrounds'.exists_head
          have hq := h.round hsound hpaired hround₀ hround' hrest.isPrefix hrest'.isPrefix
          obtain ⟨hk, hend⟩ := ih hq (hsound.round hround₀ havoids).1 hrest hrest'
          exact ⟨by rw [hk], hend⟩

end InStep

end Allocation

end RegisterColouring
