/-
**The contract of spilling.**

Spilled code is made of one block for each instruction: loads, the instruction itself, and stores.
Each variable of the instruction that is to be spilled has a temporary in the block, which no other
variable has and no other block.  It stands in every place of the instruction where the variable
stood, and nothing else of the instruction changes.  It is loaded once if the instruction reads the
variable, and stored once if it writes it.  A variable has the same cell in all blocks.  Offsets are
words, and there are `2 ^ 61` of them at a distance of eight, so the cells of different variables
differ as long as there are no more variables than that.

Main definitions:

* `RegisterColouring.Item.Substituted`, `RegisterColouring.Instruction.Substituted` — operands and
  instructions with temporaries in the places of variables;
* `RegisterColouring.Spill.Block` — **what takes the place of one instruction**;
* `RegisterColouring.Spill.Emitted` — what takes the place of code;
* `RegisterColouring.Function.spilled` — the variables of a function that are to be spilled;
* `RegisterColouring.Spill.Contract` — **the contract of spilling**.

Main results:

* `RegisterColouring.Spill.emitted_code` — spilling emits a block for each instruction;
* `RegisterColouring.Function.perm_spilled` — the variables that are to be spilled have cells;
* `RegisterColouring.Function.perm_offsets` — and these are the cells that are given;
* `RegisterColouring.Function.not_mem_vars_spill` — spilled variables are gone;
* `RegisterColouring.Function.spill_meets_contract` — **spilling meets its contract**.
-/

import RegisterColouring.Proofs.Slots
import RegisterColouring.Proofs.SpillAnalysis

set_option autoImplicit false

namespace RegisterColouring

open Spill (Replacement)

/-! ### Temporaries in the places of variables -/

/-- **An operand with temporaries in the places of variables**, be it the operand or the base of its
address.  What is no such place stays as it is. -/
inductive Item.Substituted (replacements : List Replacement) : Item → Item → Prop
  | operand {r : Replacement} {v : String} (hr : r ∈ replacements)
      (hv : r.victim = Name.ofVariable v) :
      Substituted replacements (.var v) (.var r.temporary)
  | base {r : Replacement} {v : String} (offset : Int64) (hr : r ∈ replacements)
      (hv : r.victim = Name.ofVariable v) :
      Substituted replacements (.memory (.var v) offset) (.memory (.var r.temporary) offset)
  | same {item : Item}
      (h : ∀ v, item.var? = some v → ∀ r ∈ replacements, r.victim ≠ Name.ofVariable v) :
      Substituted replacements item item

/-- **An instruction with temporaries in the places of variables.**  But for the names of its
variables it is the same instruction. -/
structure Instruction.Substituted (replacements : List Replacement)
    (instruction core : Instruction) : Prop where
  operands : List.Forall₂ (Item.Substituted replacements) instruction.operands core.operands
  others : core.rename (fun _ => "") = instruction.rename (fun _ => "")

section Substitution

variable {replacements : List Replacement} {item item' : Item} {instruction core : Instruction}
  {v : String}

theorem Item.substituted_rename (haddressed : item.isAddressed = true)
    (hnodup : (replacements.map Replacement.victim).Nodup) :
    Item.Substituted replacements item (item.rename (Spill.image replacements)) := by
  cases item with
  | var v =>
      rw [rename]
      rcases Spill.image_cases hnodup v with ⟨r, hr, hvictim, himage⟩ | ⟨hnone, himage⟩
      · rw [himage]
        exact .operand hr hvictim
      · rw [himage]
        refine .same ?_
        rintro _ ⟨⟩
        exact hnone
  | memory base offset =>
      cases base with
      | var v =>
          rw [rename]
          rcases Spill.image_cases hnodup v with ⟨r, hr, hvictim, himage⟩ | ⟨hnone, himage⟩
          · rw [himage]
            exact .base offset hr hvictim
          · rw [himage]
            refine .same ?_
            rintro _ ⟨⟩
            exact hnone
      | register name => exact .same (by simp [var?])
      | _ => simp [isAddressed, isBase] at haddressed
  | _ => exact .same (by simp [var?])

theorem Instruction.substituted_rename (haddressed : instruction.isAddressed = true)
    (hnodup : (replacements.map Replacement.victim).Nodup) :
    Instruction.Substituted replacements instruction
      (instruction.rename (Spill.image replacements)) where
  operands := by
    rw [operands_rename, List.forall₂_map_right_iff, List.forall₂_same]
    intro item hitem
    exact Item.substituted_rename (List.all_eq_true.1 haddressed item hitem) hnodup
  others := by rw [rename_rename]

/-- A variable that is left in an operand is a temporary, or was there and is none to be
replaced. -/
theorem Item.Substituted.var_cases (h : Item.Substituted replacements item item')
    (hv : item'.var? = some v) :
    v ∈ Spill.temporaries replacements ∨
      item.var? = some v ∧ ∀ r ∈ replacements, r.victim ≠ Name.ofVariable v := by
  cases h with
  | operand hr _ =>
      obtain rfl := Option.some.inj hv
      exact Or.inl (List.mem_map_of_mem hr)
  | base _ hr _ =>
      obtain rfl := Option.some.inj hv
      exact Or.inl (List.mem_map_of_mem hr)
  | same hnone => exact Or.inr ⟨hv, hnone v hv⟩

theorem Instruction.Substituted.vars_cases
    (h : Instruction.Substituted replacements instruction core) (hv : v ∈ core.vars) :
    v ∈ Spill.temporaries replacements ∨
      v ∈ instruction.vars ∧ ∀ r ∈ replacements, r.victim ≠ Name.ofVariable v := by
  have hoperands := h.operands
  rw [vars] at hv ⊢
  generalize instruction.operands = items, core.operands = items' at hoperands hv ⊢
  induction hoperands with
  | nil => simp at hv
  | cons hitem _ ih =>
      simp only [List.mem_filterMap, List.mem_cons, exists_eq_or_imp] at ih hv ⊢
      rcases hv with hv | hv
      · exact (hitem.var_cases hv).imp_right fun hkept => ⟨Or.inl hkept.1, hkept.2⟩
      · exact (ih hv).imp_right fun hkept => ⟨Or.inr hkept.1, hkept.2⟩

end Substitution

namespace Spill

variable {targets : List Name} {state : State} {v : String}

/-! ### Blocks -/

/-- **What takes the place of one instruction**: a temporary for each of its variables that are to be
spilled, in the order of its operands; a load of each temporary whose variable is read; the
instruction on temporaries; and a store of each whose variable is written. -/
structure Block (targets : List Name) (instruction : Instruction) (replacements : List Replacement)
    (block : List Instruction) : Prop where
  victims : replacements.map Replacement.victim =
    (((instruction.operands.filterMap Item.var?).map Name.ofVariable).filter
      targets.contains).eraseDups
  parts : ∃ core, instruction.Substituted replacements core ∧
    block = (replacements.filter fun r => instruction.gen.contains r.victim).map
        (fun r => .assign (.var r.temporary) (Item.slot r.offset)) ++
      core :: (replacements.filter fun r => instruction.kill.contains r.victim).map
        fun r => .assign (Item.slot r.offset) (.var r.temporary)

/-- **What takes the place of code**: the blocks of its instructions, one after the other. -/
inductive Emitted (targets : List Name) :
    List Instruction → List (List Replacement) → List Instruction → Prop
  | nil : Emitted targets [] [] []
  | cons {instruction : Instruction} {replacements : List Replacement} {block : List Instruction}
      {rest : List Instruction} {plan : List (List Replacement)} {code : List Instruction}
      (h : Block targets instruction replacements block) (hrest : Emitted targets rest plan code) :
      Emitted targets (instruction :: rest) (replacements :: plan) (block ++ code)

theorem block_expand {instruction : Instruction} {replacements : List Replacement}
    (haddressed : instruction.isAddressed = true)
    (hvictims : replacements.map Replacement.victim = victims targets instruction) :
    Block targets instruction replacements (expand replacements instruction) where
  victims := hvictims
  parts := by
    have hnodup : (replacements.map Replacement.victim).Nodup := by
      rw [hvictims]
      exact nodup_eraseDups _
    exact ⟨_, Instruction.substituted_rename haddressed hnodup, rfl⟩

/-- **Spilling emits a block for each instruction.** -/
theorem emitted_code (targets : List Name) (state : State) {list : List Instruction}
    (haddressed : ∀ instruction ∈ list, instruction.isAddressed = true) :
    Emitted targets list (plan targets state list) (code targets state list).1 := by
  induction list generalizing state with
  | nil => exact .nil
  | cons instruction rest ih =>
      rw [List.forall_mem_cons] at haddressed
      exact .cons (block_expand haddressed.1 (victims_replaceAll state _)) (ih _ haddressed.2)

/-- A variable of a block is one of its temporaries, or a variable of the instruction that is not to
be spilled. -/
theorem Block.vars_cases {instruction : Instruction} {replacements : List Replacement}
    {block : List Instruction} (h : Block targets instruction replacements block)
    {step : Instruction} (hstep : step ∈ block) (hv : v ∈ step.vars) :
    v ∈ temporaries replacements ∨ v ∈ instruction.vars ∧ Name.ofVariable v ∉ targets := by
  obtain ⟨core, hcore, rfl⟩ := h.parts
  simp only [List.mem_append, List.mem_cons, List.mem_map, List.mem_filter] at hstep
  rcases hstep with ⟨r, ⟨hr, -⟩, rfl⟩ | rfl | ⟨r, ⟨hr, -⟩, rfl⟩
  · obtain rfl : v = r.temporary := List.mem_singleton.1 hv
    exact Or.inl (List.mem_map_of_mem hr)
  · refine (hcore.vars_cases hv).imp_right ?_
    rintro ⟨hvars, hkept⟩
    refine ⟨hvars, fun htarget => ?_⟩
    have hvictim : Name.ofVariable v ∈ replacements.map Replacement.victim := by
      rw [h.victims]
      exact mem_victims.2 ⟨htarget, v, hvars, rfl⟩
    obtain ⟨r, hr, heq⟩ := List.mem_map.1 hvictim
    exact hkept r hr heq
  · obtain rfl : v = r.temporary := List.mem_singleton.1 hv
    exact Or.inl (List.mem_map_of_mem hr)

/-- A variable of what is emitted is a temporary, or a variable of the code that is not to be
spilled. -/
theorem Emitted.vars_cases {list code : List Instruction} {plan : List (List Replacement)}
    (h : Emitted targets list plan code) {step : Instruction} (hstep : step ∈ code)
    (hv : v ∈ step.vars) :
    v ∈ temporaries plan.flatten ∨
      (∃ instruction ∈ list, v ∈ instruction.vars) ∧ Name.ofVariable v ∉ targets := by
  induction h with
  | nil => simp at hstep
  | cons hblock _ ih =>
      rw [List.flatten_cons, temporaries, List.map_append, List.mem_append, List.exists_mem_cons_iff]
      rcases List.mem_append.1 hstep with hstep | hstep
      · exact (hblock.vars_cases hstep hv).imp Or.inl (And.imp_left Or.inl)
      · exact (ih hstep).imp Or.inr (And.imp_left Or.inr)

end Spill

/-! ### Cells -/

namespace Function

variable {function : Function} {targets : List Name} {names : NameSupply}

/-- **The variables of a function that are to be spilled**, in order of first occurrence. -/
def spilled (function : Function) (targets : List Name) : List String :=
  function.vars.filter fun v => targets.contains (Name.ofVariable v)

theorem mem_spilled {v : String} :
    v ∈ function.spilled targets ↔ v ∈ function.vars ∧ Name.ofVariable v ∈ targets := by
  simp [spilled]

/-- **The variables that are to be spilled have cells.** -/
theorem perm_spilled (function : Function) (targets : List Name) (names : NameSupply) :
    ((function.spillSlots targets names).map Prod.fst).Perm
      ((function.spilled targets).map Name.ofVariable) := by
  have hnodup : ((function.spilled targets).map Name.ofVariable).Nodup :=
    ((nodup_eraseDups _).filter _).map fun v w h => Name.ofVariable_inj.1 h
  refine (List.perm_ext_iff_of_nodup (function.nodup_slots targets names) hnodup).2 ?_
  intro name
  rw [mem_slots_iff, List.mem_map]
  constructor
  · rintro ⟨htarget, v, hv, rfl⟩
    exact ⟨v, mem_spilled.2 ⟨hv, htarget⟩, rfl⟩
  · rintro ⟨v, hv, rfl⟩
    exact ⟨(mem_spilled.1 hv).2, v, (mem_spilled.1 hv).1, rfl⟩

theorem length_slots (function : Function) (targets : List Name) (names : NameSupply) :
    (function.spillSlots targets names).length = (function.spilled targets).length := by
  have hlength := (function.perm_spilled targets names).length_eq
  rwa [List.length_map, List.length_map] at hlength

/-- The offset of a name's cell. -/
def slotOf (function : Function) (targets : List Name) (names : NameSupply) (name : Name) : Int64 :=
  ((function.spillSlots targets names).lookup name).getD 0

theorem slotOf_of_mem {name : Name} {offset : Int64}
    (hmem : (name, offset) ∈ function.spillSlots targets names) :
    function.slotOf targets names name = offset := by
  rw [slotOf, (lookup_eq_some_iff_mem (function.nodup_slots targets names)).2 hmem,
    Option.getD_some]

theorem offset_eq_slotOf {r : Replacement} (hr : r ∈ (function.spillPlan targets names).flatten) :
    r.offset = function.slotOf targets names r.victim :=
  (slotOf_of_mem (mem_slots_of_mem_plan hr)).symm

/-- The cells of the spilled variables are the cells that are given. -/
theorem perm_offsets (function : Function) (targets : List Name) (names : NameSupply) :
    ((function.spilled targets).map fun v => function.slotOf targets names (Name.ofVariable v)).Perm
      ((function.spillSlots targets names).map Prod.snd) := by
  have hoffsets : (function.spillSlots targets names).map Prod.snd =
      ((function.spillSlots targets names).map Prod.fst).map (function.slotOf targets names) := by
    rw [List.map_map]
    exact List.map_congr_left fun entry hentry => (slotOf_of_mem hentry).symm
  have hnames := (function.perm_spilled targets names).map (function.slotOf targets names)
  rw [hoffsets]
  simpa [List.map_map, Function.comp_def] using hnames.symm

/-- A variable of a spilled function is a temporary, or a variable that was not to be spilled. -/
theorem vars_spill_cases
    (haddressed : ∀ instruction ∈ function.code, instruction.isAddressed = true) {v : String}
    (hv : v ∈ (function.spill targets names).function.vars) :
    v ∈ Spill.temporaries (function.spillPlan targets names).flatten ∨
      v ∈ function.vars ∧ Name.ofVariable v ∉ targets := by
  obtain ⟨step, hstep, hv⟩ := mem_vars.1 hv
  rw [mem_vars]
  exact (Spill.emitted_code targets _ haddressed).vars_cases hstep hv

/-- **Spilled variables are gone.** -/
theorem not_mem_vars_spill
    (haddressed : ∀ instruction ∈ function.code, instruction.isAddressed = true)
    (havoids : ∀ v ∈ function.vars, names.Avoids v) {v : String}
    (hv : v ∈ function.spilled targets) : v ∉ (function.spill targets names).function.vars := by
  obtain ⟨hvars, htarget⟩ := mem_spilled.1 hv
  intro hmem
  rcases vars_spill_cases haddressed hmem with htemporary | hkept
  · exact (function.drawn_spill targets names).fresh v htemporary (havoids v hvars)
  · exact hkept.2 htarget

end Function

/-! ### The contract -/

/-- **The contract of spilling**, for the replacements in each instruction and the cells of the
variables. -/
structure Spill.Contract (function : Function) (targets : List Name)
    (plan : List (List Replacement)) (slot : Name → Int64) (result : Spill.Result) : Prop where
  name_eq : result.function.name = function.name
  arity_eq : result.function.arity = function.arity
  emitted : Spill.Emitted targets function.code plan result.function.code
  temporaries_eq : result.temporaries = (Spill.temporaries plan.flatten).map Name.ofVariable
  temporaries_apart : (Spill.temporaries plan.flatten).Nodup
  temporaries_fresh : ∀ t ∈ Spill.temporaries plan.flatten, t ∉ function.vars
  cell : ∀ r ∈ plan.flatten, r.offset = slot r.victim
  cells_apart : ((function.spilled targets).map fun v => slot (Name.ofVariable v)).Nodup ↔
    (function.spilled targets).length ≤ 2 ^ 61
  gone : ∀ v ∈ function.spilled targets, v ∉ result.function.vars
  locals_eq : result.function.locals =
    function.locals + UInt64.ofNat (function.spilled targets).length

/-- **Spilling meets its contract.** -/
theorem Function.spill_meets_contract {function : Function} {names : NameSupply}
    (targets : List Name)
    (haddressed : ∀ instruction ∈ function.code, instruction.isAddressed = true)
    (havoids : ∀ v ∈ function.vars, names.Avoids v) :
    ∃ plan slot, Spill.Contract function targets plan slot (function.spill targets names) := by
  have hdrawn := function.drawn_spill targets names
  refine ⟨function.spillPlan targets names, function.slotOf targets names, ?_⟩
  exact {
    name_eq := rfl
    arity_eq := rfl
    emitted := Spill.emitted_code targets _ haddressed
    temporaries_eq := function.temporaries_spill targets names
    temporaries_apart := hdrawn.nodup
    temporaries_fresh := fun t ht hvars => hdrawn.fresh t ht (havoids t hvars)
    cell := fun r hr => offset_eq_slotOf hr
    cells_apart := by
      rw [(function.perm_offsets targets names).nodup_iff, map_snd_slots, Spill.nodup_offsets_iff,
        length_slots]
    gone := fun v hv => not_mem_vars_spill haddressed havoids hv
    locals_eq := by rw [← function.length_slots targets names, locals_spill_slots] }

/-- A function that stores a variable where the variable points to, and adds what is there to
another. -/
def storing : Function :=
  .ofCode "storing" 1 [.assign (.var "x") (.register "rdi"),
    .assign (.memory (.var "x") 8) (.var "x"), .arith .add (.var "y") (.memory (.var "x") 8),
    .assign (.register "rax") (.var "y"), .ret]

theorem storing_spill_meets_contract :
    (∀ instruction ∈ storing.code, instruction.isAddressed = true) ∧
      (∀ v ∈ storing.vars, (NameSupply.ofTaken "t" storing.vars).Avoids v) ∧
      storing.spilled ["%x", "%z", "%x"] = ["x"] ∧
      (storing.spill ["%x", "%z", "%x"] (.ofTaken "t" storing.vars)).function.code =
        [.assign (.var "t0") (.register "rdi"), .assign (Item.slot 0) (.var "t0"),
          .assign (.var "t1") (Item.slot 0), .assign (.memory (.var "t1") 8) (.var "t1"),
          .assign (.var "t2") (Item.slot 0), .arith .add (.var "y") (.memory (.var "t2") 8),
          .assign (.register "rax") (.var "y"), .ret] ∧
      ∃ plan slot, Spill.Contract storing ["%x", "%z", "%x"] plan slot
        (storing.spill ["%x", "%z", "%x"] (.ofTaken "t" storing.vars)) := by
  have haddressed : ∀ instruction ∈ storing.code, instruction.isAddressed = true := by decide
  have havoids : ∀ v ∈ storing.vars, (NameSupply.ofTaken "t" storing.vars).Avoids v :=
    fun v hv => Or.inl hv
  exact ⟨haddressed, havoids, by decide, by decide,
    Function.spill_meets_contract _ haddressed havoids⟩

end RegisterColouring
