/-
**Spilled functions can be analysed.**

A function with regular instructions can be analysed exactly if its labels are unique and its jumps
have labels to go to.  Spilling keeps instructions regular and keeps labels and jumps, so what could
be analysed before can be analysed afterwards.  The variables of a spilled function are the
temporaries and the variables that were not spilled.

Main definitions:

* `RegisterColouring.Function.Regular` — regular instructions throughout;
* `RegisterColouring.Function.spillPlan` — the replacements in each instruction.

Main results:

* `RegisterColouring.Function.mem_vars_spill` — the variables of a spilled function;
* `RegisterColouring.Function.analyse_spill` — **spilled functions can be analysed**;
* `RegisterColouring.Spill.Planned.successorsAt_inside`,
  `RegisterColouring.Spill.Planned.successorsAt_last` — the successors of their instructions.
-/

import RegisterColouring.Proofs.Machine
import RegisterColouring.Proofs.SpillFlow

set_option autoImplicit false

namespace RegisterColouring

/-! ### Regular functions -/

/-- A function with regular instructions. -/
def Function.Regular (function : Function) : Prop :=
  ∀ instruction ∈ function.code, instruction.isRegular = true

/-- Every name that a regular function reads or writes is in its vocabulary. -/
theorem Function.Regular.known {function : Function} (h : function.Regular)
    {instruction : Instruction} (hmem : instruction ∈ function.code) {name : Name}
    (hname : name ∈ instruction.gen ∨ name ∈ instruction.kill) :
    name ∈ (Vocabulary.ofFunction function).names := by
  rw [Vocabulary.ofFunction, Vocabulary.mem_names_ofVariables]
  refine (Instruction.tracked_of_isRegular (h instruction hmem) hname).imp_right ?_
  rintro ⟨v, hv, rfl⟩
  exact ⟨v, Function.mem_vars.2 ⟨instruction, hmem, hv⟩, rfl⟩

/-- **Which regular functions can be analysed.** -/
theorem Function.Regular.analyse_ok_iff {function : Function} (h : function.Regular) :
    (∃ result, Liveness.analyse function = .ok result) ↔
      (function.code.filterMap Instruction.label?).Nodup ∧
        ∀ instruction ∈ function.code, ∀ name, instruction.jump? = some name →
          .label name ∈ function.code := by
  rw [Liveness.analyse_ok_iff]
  constructor
  · rintro ⟨hlabels, hjumps, -⟩
    exact ⟨hlabels, hjumps⟩
  · rintro ⟨hlabels, hjumps⟩
    exact ⟨hlabels, hjumps, fun instruction hmem name hname => h.known hmem hname⟩

namespace Spill

/-! ### Labels and successors -/

theorem labels_expand (replacements : List Replacement) (instruction : Instruction) :
    (expand replacements instruction).filterMap Instruction.label? = instruction.label?.toList := by
  have hload : Instruction.label? ∘ Replacement.load = fun _ => none := rfl
  have hstore : Instruction.label? ∘ Replacement.store = fun _ => none := rfl
  rw [expand, List.filterMap_append, List.filterMap_cons, List.filterMap_map, List.filterMap_map,
    hload, hstore, Instruction.label?_rename]
  cases instruction.label? <;> simp

theorem labels_expanded {plan : List (List Replacement)} {code : List Instruction}
    (hlength : plan.length = code.length) :
    (expanded plan code).filterMap Instruction.label? = code.filterMap Instruction.label? := by
  induction code generalizing plan with
  | nil => simp [expanded]
  | cons instruction rest ih =>
      cases plan with
      | nil => simp at hlength
      | cons replacements plan =>
          have htail := @ih plan (by simpa using hlength)
          rw [expanded] at htail
          rw [expanded, List.zipWith_cons_cons, List.flatten_cons, List.filterMap_append,
            labels_expand, htail, List.filterMap_cons]
          cases instruction.label? <;> rfl

namespace Planned

variable {targets : List Name} {plan : List (List Replacement)} {function spilled : Function}
  {i k : Nat} {instruction : Instruction} {replacements : List Replacement}

theorem isRegular_of_mem (h : Planned targets function.code plan) {step : Instruction}
    (hmem : step ∈ expanded plan function.code) : step.isRegular = true := by
  obtain ⟨p, hp⟩ := List.mem_iff_getElem?.1 hmem
  obtain ⟨i, replacements, instruction, k, hsite, hk, -⟩ := exists_site hp
  rcases expand_cases hk with ⟨-, r, -, -, rfl⟩ | ⟨-, rfl⟩ | ⟨-, r, -, -, rfl⟩
  · rfl
  · rw [Instruction.isRegular_rename]
    exact (h.replaces i _ _ hsite).regular
  · rfl

/-- Jumps go to the blocks of their labels. -/
theorem label_of_jump (h : Planned targets function.code plan)
    (hjumps : ∀ instruction ∈ function.code, ∀ name, instruction.jump? = some name →
      .label name ∈ function.code) {step : Instruction} {name : String}
    (hmem : step ∈ expanded plan function.code) (hjump : step.jump? = some name) :
    .label name ∈ expanded plan function.code := by
  obtain ⟨p, hp⟩ := List.mem_iff_getElem?.1 hmem
  obtain ⟨i, replacements, instruction, k, hsite, hk, -⟩ := exists_site hp
  rcases expand_cases hk with ⟨-, r, -, -, rfl⟩ | ⟨-, rfl⟩ | ⟨-, r, -, -, rfl⟩
  · simp [Replacement.load, Instruction.jump?] at hjump
  · rw [Instruction.jump?_rename] at hjump
    have hlabel := hjumps instruction (List.mem_of_getElem? hsite.code_eq) name hjump
    obtain ⟨j, hj⟩ := List.mem_iff_getElem?.1 hlabel
    exact List.mem_of_getElem? (h.label_position.2 ⟨j, rfl, hj⟩)
  · simp [Replacement.store, Instruction.jump?] at hjump

/-- No temporary is a name of the function. -/
theorem temporary_not_known (h : Planned targets function.code plan) {r : Replacement}
    (hr : r ∈ plan.flatten) :
    Name.ofVariable r.temporary ∉ (Vocabulary.ofFunction function).names := by
  rw [Vocabulary.ofFunction, Vocabulary.mem_names_ofVariables]
  rintro (hregister | ⟨v, hv, heq⟩)
  · exact Name.ofVariable_not_mem_generalPurpose _ hregister
  · obtain ⟨instruction, hmem, hv⟩ := Function.mem_vars.1 hv
    rw [Name.ofVariable_inj] at heq
    exact h.fresh _ (List.mem_map_of_mem hr) instruction hmem (heq ▸ hv)

section Successors

variable {result result' : Liveness} (h : Planned targets function.code plan)
  (hresult : result.Analysed function) (hresult' : result'.Analysed spilled)
  (hcode : spilled.code = expanded plan function.code)
  (hsite : Site plan function.code i replacements instruction)

include h hresult' hcode hsite

/-- Inside a block the only successor of a step is the next. -/
theorem successorsAt_inside (hinside : k + 1 < (expand replacements instruction).length) :
    result'.successorsAt (start plan function.code i + k) =
      [start plan function.code i + (k + 1)] := by
  have hk := List.getElem?_eq_getElem (Nat.lt_of_succ_lt hinside)
  have hat := hsite.getElem?_expanded hk
  have hnext := hsite.getElem?_expanded (List.getElem?_eq_getElem hinside)
  obtain ⟨hfalls, hjump⟩ := h.falls_inside hsite hk hinside
  rw [← hcode] at hat hnext
  obtain ⟨hsuccessors, -⟩ := Function.successorsOf_eq_ok_iff.1 (hresult'.successorsAt hat)
  have hlt : start plan function.code i + k + 1 < spilled.code.length :=
    (List.getElem?_eq_some_iff.1 hnext).1
  rw [← hsuccessors, if_pos hfalls, Function.jumpPosition?, hjump, Function.next, if_pos hlt]
  rfl

include hresult

/-- The successors of the last step of a block are the starts of the blocks of the successors. -/
theorem successorsAt_last (hlast : k + 1 = (expand replacements instruction).length) :
    result'.successorsAt (start plan function.code i + k) =
      (result.successorsAt i).map (start plan function.code) := by
  have hk := List.getElem?_eq_getElem (show k < (expand replacements instruction).length by omega)
  have hat := hsite.getElem?_expanded hk
  rw [← hcode] at hat
  obtain ⟨hsuccessors', -⟩ := Function.successorsOf_eq_ok_iff.1 (hresult'.successorsAt hat)
  obtain ⟨hsuccessors, -⟩ := Function.successorsOf_eq_ok_iff.1 (hresult.successorsAt hsite.code_eq)
  obtain ⟨hfalls, hjump⟩ := h.last_step hsite hlast hk
  have hlookup : ∀ name, result'.labels.lookup name =
      (result.labels.lookup name).map (start plan function.code) := by
    intro name
    apply Option.ext
    intro q
    rw [Function.lookup_labels hresult'.labels, hcode, h.label_position, Option.map_eq_some_iff]
    simp only [Function.lookup_labels hresult.labels]
    constructor
    · rintro ⟨j, rfl, hj⟩
      exact ⟨j, hj, rfl⟩
    · rintro ⟨j, hj, rfl⟩
      exact ⟨j, rfl, hj⟩
  have hnext : Function.next spilled.code.length (start plan function.code i + k) =
      (Function.next function.code.length i).map (start plan function.code) := by
    have hsucc : start plan function.code i + k + 1 = start plan function.code (i + 1) := by
      rw [hsite.start_succ]
      omega
    rw [Function.next, Function.next, hsucc, hcode]
    by_cases hlt : i + 1 < function.code.length
    · rw [if_pos hlt, if_pos (h.start_lt_iff.2 hlt)]
      rfl
    · rw [if_neg hlt, if_neg (fun hstart => hlt (h.start_lt_iff.1 hstart))]
      rfl
  rw [← hsuccessors', ← hsuccessors, List.map_append, hfalls, hnext, Function.jumpPosition?,
    Function.jumpPosition?, hjump]
  congr 1
  · cases instruction.jump? with
    | none => rfl
    | some name =>
        simp only [Option.bind_some, hlookup]
        cases result.labels.lookup name <;> rfl
  · split <;> rfl

end Successors

end Planned

end Spill

/-! ### Spilled functions -/

namespace Function

/-- The replacements in each instruction when some variables of a function are spilled. -/
def spillPlan (function : Function) (targets : List Name) (names : NameSupply) :
    List (List Spill.Replacement) :=
  Spill.plan targets ⟨function.locals, [], names, []⟩ function.code

variable {function : Function} {targets : List Name} {names : NameSupply}

theorem code_spill (function : Function) (targets : List Name) (names : NameSupply) :
    (function.spill targets names).function.code =
      Spill.expanded (function.spillPlan targets names) function.code :=
  Spill.code_eq targets _ function.code

theorem temporaries_spill (function : Function) (targets : List Name) (names : NameSupply) :
    (function.spill targets names).temporaries =
      (Spill.temporaries (function.spillPlan targets names).flatten).map Name.ofVariable := by
  have htemporaries := Spill.temporaries_code targets ⟨function.locals, [], names, []⟩ function.code
  rwa [List.nil_append] at htemporaries

theorem drawn_spill (function : Function) (targets : List Name) (names : NameSupply) :
    NameSupply.Drawn names (function.spill targets names).names
      (Spill.temporaries (function.spillPlan targets names).flatten) :=
  Spill.drawn_plan targets ⟨function.locals, [], names, []⟩ function.code

variable (hregular : function.Regular) (havoids : ∀ v ∈ function.vars, names.Avoids v)

include hregular havoids

theorem planned_spill : Spill.Planned targets function.code (function.spillPlan targets names) :=
  Spill.planned_plan hregular fun instruction hmem v hv =>
    havoids v (Function.mem_vars.2 ⟨instruction, hmem, hv⟩)

theorem regular_spill : (function.spill targets names).function.Regular := by
  intro step hstep
  rw [code_spill] at hstep
  exact (planned_spill hregular havoids).isRegular_of_mem hstep

/-- **The variables of a spilled function** are the temporaries and the variables that were not
spilled. -/
theorem mem_vars_spill {v : String} :
    v ∈ (function.spill targets names).function.vars ↔
      (v ∈ function.vars ∧ Name.ofVariable v ∉ targets) ∨
        v ∈ Spill.temporaries (function.spillPlan targets names).flatten := by
  have hplanned : Spill.Planned targets function.code (function.spillPlan targets names) :=
    planned_spill hregular havoids
  rw [Function.mem_vars, code_spill, Function.mem_vars]
  constructor
  · rintro ⟨step, hstep, hv⟩
    obtain ⟨p, hp⟩ := List.mem_iff_getElem?.1 hstep
    obtain ⟨i, replacements, instruction, k, hsite, hk, -⟩ := Spill.exists_site hp
    have htemporary : ∀ t ∈ Spill.temporaries replacements,
        t ∈ Spill.temporaries (function.spillPlan targets names).flatten := by
      intro t ht
      obtain ⟨r, hr, rfl⟩ := List.mem_map.1 ht
      exact List.mem_map_of_mem (hsite.mem_flatten hr)
    rcases Spill.expand_cases hk with ⟨-, r, hr, -, rfl⟩ | ⟨-, rfl⟩ | ⟨-, r, hr, -, rfl⟩
    · rw [Spill.Replacement.vars_load, List.mem_singleton] at hv
      exact Or.inr (htemporary v (hv ▸ List.mem_map_of_mem hr))
    · rcases (hplanned.replaces i _ _ hsite).mem_vars.1 hv with ⟨hv, htarget⟩ | hv
      · exact Or.inl ⟨⟨instruction, List.mem_of_getElem? hsite.code_eq, hv⟩, htarget⟩
      · exact Or.inr (htemporary v hv)
    · rw [Spill.Replacement.vars_store, List.mem_singleton] at hv
      exact Or.inr (htemporary v (hv ▸ List.mem_map_of_mem hr))
  · rintro (⟨⟨instruction, hmem, hv⟩, htarget⟩ | hv)
    · obtain ⟨i, hi⟩ := List.mem_iff_getElem?.1 hmem
      obtain ⟨replacements, hsite⟩ := hplanned.exists_site_at hi
      exact ⟨_, List.mem_of_getElem? (hsite.getElem?_expanded (Spill.getElem?_expand_core _ _)),
        (hplanned.replaces i _ _ hsite).mem_vars.2 (Or.inl ⟨hv, htarget⟩)⟩
    · obtain ⟨r, hr, rfl⟩ := List.mem_map.1 hv
      obtain ⟨i, replacements, instruction, hsite, hr⟩ := hplanned.exists_site_of_mem hr
      exact ⟨_, List.mem_of_getElem? (hsite.getElem?_expanded (Spill.getElem?_expand_core _ _)),
        (hplanned.replaces i _ _ hsite).mem_vars.2 (Or.inr (List.mem_map_of_mem hr))⟩

/-- The names that are left avoid the variables of the spilled function. -/
theorem avoids_spill {v : String} (hv : v ∈ (function.spill targets names).function.vars) :
    (function.spill targets names).names.Avoids v := by
  have hdrawn := drawn_spill function targets names
  rcases (mem_vars_spill hregular havoids).1 hv with ⟨hv, -⟩ | hv
  · exact hdrawn.mono v (havoids v hv)
  · exact hdrawn.used v hv

/-- **What could be analysed can be analysed after spilling.** -/
theorem analyse_spill {result : Liveness} (hresult : Liveness.analyse function = .ok result) :
    ∃ result', Liveness.analyse (function.spill targets names).function = .ok result' := by
  have hplanned : Spill.Planned targets function.code (function.spillPlan targets names) :=
    planned_spill hregular havoids
  obtain ⟨hlabels, hjumps⟩ := hregular.analyse_ok_iff.1 ⟨result, hresult⟩
  rw [(regular_spill hregular havoids).analyse_ok_iff, code_spill,
    Spill.labels_expanded hplanned.length_eq]
  exact ⟨hlabels, fun step hstep name hjump => hplanned.label_of_jump hjumps hstep hjump⟩

end Function

end RegisterColouring
