/-
**Spilling preserves meaning.**

A machine that runs a spilled function has cells of its own after the end of the frame: a load
copies one into a temporary, a store copies a temporary back.  All other instructions act as before,
and an instruction on temporaries acts as the instruction does, with the names replaced.  Such a
machine does, block by block, what a machine that runs the function itself does instruction by
instruction: between blocks, the variables that were not spilled have the same values, and those
that were are in their cells.

Main definitions:

* `RegisterColouring.Semantics` — how instructions act, whatever their variables are called;
* `RegisterColouring.Semantics.spilledAction` — the same, with cells after the end of the frame;
* `RegisterColouring.Spilled` — a function, its spilled form, and what is known of them;
* `RegisterColouring.Related` — the two machines between blocks.

Main results:

* `RegisterColouring.Spilled.run_loads`, `RegisterColouring.Spilled.step_core`,
  `RegisterColouring.Spilled.step_store` — the parts of a block;
* `RegisterColouring.Related.step`, `RegisterColouring.Related.run` — machines stay related;
* `RegisterColouring.spilled_runs_related` — **spilling preserves meaning**.
-/

import RegisterColouring.Proofs.Grammar
import RegisterColouring.Proofs.Slots
import RegisterColouring.Proofs.SpillAnalysis

set_option autoImplicit false

namespace RegisterColouring

open Spill (Replacement Site Planned Replaces expand expanded start loadCount storeCount image)

/-! ### Meanings of instructions -/

/-- **How instructions act**, whatever their variables are called: an instruction whose variables
are renamed, different ones differently, acts as before with the names renamed. -/
structure Semantics (Value Hidden : Type) where
  act : Instruction → List Value → Hidden → Outcome Value Hidden
  rename : ∀ (instruction : Instruction) (image : String → String) (read : List Value)
    (hidden : Hidden), instruction.isRegular = true →
    (∀ v ∈ instruction.vars, ∀ w ∈ instruction.vars, image v = image w → v = w) →
    (act (instruction.rename image) read hidden).hidden = (act instruction read hidden).hidden ∧
    (act (instruction.rename image) read hidden).choice = (act instruction read hidden).choice ∧
    ∀ name ∈ instruction.kill, (act (instruction.rename image) read hidden).value
      (Name.rename image name) = (act instruction read hidden).value name

/-- A hidden state with cells after the end of the frame, by their offsets. -/
structure Frame (Value Hidden : Type) where
  hidden : Hidden
  cell : Int64 → Value

namespace Semantics

variable {Value Hidden : Type} (semantics : Semantics Value Hidden)

/-- How the instructions of a function act. -/
def action : Action Value Hidden := fun _ instruction => semantics.act instruction

/-- An instruction that does not touch the cells. -/
def actBeside (instruction : Instruction) (read : List Value) (frame : Frame Value Hidden) :
    Outcome Value (Frame Value Hidden) :=
  let outcome := semantics.act instruction read frame.hidden
  ⟨outcome.value, ⟨outcome.hidden, frame.cell⟩, outcome.choice⟩

/-- How the instructions of a spilled function act: an assignment between a variable and a cell
after the end of the frame copies the value. -/
def actWith (locals : UInt64) (instruction : Instruction) (read : List Value)
    (frame : Frame Value Hidden) : Outcome Value (Frame Value Hidden) :=
  match instruction with
  | .assign (.var target) source =>
    match source.beyond? locals with
    | some offset => ⟨fun _ => frame.cell offset, frame, 0⟩
    | none => semantics.actBeside (.assign (.var target) source) read frame
  | .assign target (.var source) =>
    match target.beyond? locals, read with
    | some offset, [value] =>
      ⟨fun _ => value, ⟨frame.hidden, Function.update frame.cell offset value⟩, 0⟩
    | _, _ => semantics.actBeside (.assign target (.var source)) read frame
  | instruction => semantics.actBeside instruction read frame

/-- How the instructions of a spilled function act, for a machine. -/
def spilledAction (locals : UInt64) : Action Value (Frame Value Hidden) :=
  fun _ instruction => semantics.actWith locals instruction

variable {locals : UInt64} {r : Replacement} {frame : Frame Value Hidden}

theorem actWith_load (hbeyond : 8 * (locals.toNat : Int) ≤ r.offset.toInt) (read : List Value) :
    semantics.actWith locals r.load read frame = ⟨fun _ => frame.cell r.offset, frame, 0⟩ := by
  simp only [Replacement.load, actWith, Item.beyond?_slot hbeyond]

theorem actWith_store (hbeyond : 8 * (locals.toNat : Int) ≤ r.offset.toInt) (value : Value) :
    semantics.actWith locals r.store [value] frame =
      ⟨fun _ => value, ⟨frame.hidden, Function.update frame.cell r.offset value⟩, 0⟩ := by
  have hslot := Item.beyond?_slot hbeyond
  unfold Item.slot at hslot
  simp only [Replacement.store, Item.slot, actWith, hslot]

/-- An instruction that mentions no cell after the end of the frame does not touch the cells. -/
theorem actWith_of_old {instruction : Instruction}
    (hold : ∀ item ∈ instruction.operands, item.beyond? locals = none) (read : List Value) :
    semantics.actWith locals instruction read frame =
      semantics.actBeside instruction read frame := by
  cases instruction with
  | assign target source =>
      have htarget := hold target (by simp [Instruction.operands])
      have hsource := hold source (by simp [Instruction.operands])
      unfold actWith
      split
      · next heq =>
        obtain ⟨rfl, rfl⟩ := Instruction.assign.inj heq
        rw [hsource]
      · next heq =>
        obtain ⟨rfl, rfl⟩ := Instruction.assign.inj heq
        rw [htarget]
      · rfl
  | _ => rfl

end Semantics

/-! ### Spilled functions -/

/-- **A function, its spilled form, and what is known of them.** -/
structure Spilled (function spilled : Function) (targets : List Name)
    (plan : List (List Replacement)) (slots : List (Name × Int64)) (result result' : Liveness) :
    Prop where
  planned : Planned targets function.code plan
  code_eq : spilled.code = expanded plan function.code
  analysed : result.Analysed function
  analysed_spilled : result'.Analysed spilled
  lookup : ∀ r ∈ plan.flatten, slots.lookup r.victim = some r.offset
  slot : ∀ name offset, slots.lookup name = some offset →
    name ∈ targets ∧ ∃ v ∈ function.vars, name = Name.ofVariable v
  inj : ∀ name other offset, slots.lookup name = some offset →
    slots.lookup other = some offset → name = other
  beyond : ∀ name offset, slots.lookup name = some offset →
    8 * (function.locals.toNat : Int) ≤ offset.toInt
  old : ∀ instruction ∈ function.code, ∀ item ∈ instruction.operands,
    item.beyond? function.locals = none

section Blocks

variable {Value Hidden : Type} {function spilled : Function}
  {targets : List Name} {plan : List (List Replacement)} {slots : List (Name × Int64)}
  {result result' : Liveness} {i : Nat} {instruction : Instruction}
  {replacements : List Replacement}

namespace Spilled

variable (h : Spilled function spilled targets plan slots result result')
  (hsite : Site plan function.code i replacements instruction)

include h hsite

theorem lookup_of_mem {r : Replacement} (hr : r ∈ replacements) :
    slots.lookup r.victim = some r.offset :=
  h.lookup r (hsite.mem_flatten hr)

/-- A variable of an instruction that has a cell is replaced. -/
theorem exists_replacement {v : String} (hv : v ∈ instruction.vars) {offset : Int64}
    (hslot : slots.lookup (Name.ofVariable v) = some offset) :
    ∃ r ∈ replacements, r.victim = Name.ofVariable v ∧ r.offset = offset := by
  obtain ⟨htarget, -⟩ := h.slot _ _ hslot
  obtain ⟨r, hr, hvictim⟩ := (h.planned.replaces i _ _ hsite).exists_replacement hv htarget
  refine ⟨r, hr, hvictim, ?_⟩
  have hlookup := h.lookup_of_mem hsite hr
  rw [hvictim, hslot, Option.some_inj] at hlookup
  exact hlookup.symm

theorem getElem?_code {k : Nat} {step : Instruction}
    (hk : (expand replacements instruction)[k]? = some step) :
    result'.function.code[start plan function.code i + k]? = some step := by
  rw [h.analysed_spilled.function_eq, h.code_eq]
  exact hsite.getElem?_expanded hk

/-- **The loads of a block** copy the cells of the variables that are read into their temporaries,
and change nothing else. -/
theorem run_loads (semantics : Semantics Value Hidden) (store : Name → Value)
    (frame : Frame Value Hidden) {k : Nat}
    (hk : k ≤ loadCount replacements instruction) :
    ∃ store', result'.run (semantics.spilledAction function.locals) id k
        ⟨some (start plan function.code i), store, frame⟩ =
          ⟨some (start plan function.code i + k), store', frame⟩ ∧
      (∀ name, (∀ r ∈ replacements, Name.ofVariable r.temporary ≠ name) →
        store' name = store name) ∧
      ∀ r ∈ replacements, ∀ a < k, (expand replacements instruction)[a]? = some r.load →
        store' (Name.ofVariable r.temporary) = frame.cell r.offset := by
  have hreplaces := h.planned.replaces i _ _ hsite
  have hlength := Spill.length_expand replacements instruction
  induction k with
  | zero => exact ⟨store, rfl, fun _ _ => rfl, by simp⟩
  | succ k ih =>
      obtain ⟨store', hrun, hkept, hloaded⟩ := ih (by omega)
      have hsome := List.getElem?_eq_getElem
        (show k < (expand replacements instruction).length by omega)
      rcases Spill.expand_cases hsome with ⟨-, r, hr, -, hstep⟩ | ⟨hcore, -⟩ | ⟨hlate, -⟩
      · have hbeyond := h.beyond _ _ (h.lookup_of_mem hsite hr)
        rw [hstep] at hsome
        refine ⟨Function.update store' (Name.ofVariable r.temporary) (frame.cell r.offset),
          ?_, ?_, ?_⟩
        · rw [Liveness.run_succ, hrun, Liveness.step_eq (h.getElem?_code hsite hsome)
            (semantics.actWith_load hbeyond _), h.planned.successorsAt_inside h.analysed_spilled
            h.code_eq hsite (by omega)]
          rfl
        · intro name hname
          rw [Function.update_of_ne (Ne.symm (hname r hr)), hkept name hname]
        · intro s hs a ha hload
          by_cases hsr : s.temporary = r.temporary
          · rw [hreplaces.eq_of_temporary_eq hs hr hsr, Function.update_self]
          · rw [Function.update_of_ne (fun heq => hsr (Name.ofVariable_inj.1 heq))]
            apply hloaded s hs a _ hload
            by_contra hge
            obtain rfl : a = k := by omega
            rw [hsome, Option.some_inj] at hload
            have hvars := congrArg Instruction.vars hload
            simp only [Replacement.vars_load, List.cons.injEq, and_true] at hvars
            exact hsr hvars.symm
      · omega
      · omega

/-- **The instruction on temporaries** acts as the instruction does, if it finds the same values. -/
theorem step_core (semantics : Semantics Value Hidden) {store store' : Name → Value}
    (frame : Frame Value Hidden)
    (hread : ∀ name ∈ instruction.gen,
      store' (Name.rename (image replacements) name) = store name) :
    ∃ value, result'.step (semantics.spilledAction function.locals) id
        ⟨some (start plan function.code i + loadCount replacements instruction), store', frame⟩ =
      ⟨(result'.successorsAt
          (start plan function.code i + loadCount replacements instruction))[
            (semantics.act instruction (instruction.gen.map store) frame.hidden).choice]?,
        overwrite id value (instruction.kill.map (Name.rename (image replacements))) store',
        ⟨(semantics.act instruction (instruction.gen.map store) frame.hidden).hidden,
          frame.cell⟩⟩ ∧
      ∀ name ∈ instruction.kill, value (Name.rename (image replacements) name) =
        (semantics.act instruction (instruction.gen.map store) frame.hidden).value name := by
  have hreplaces := h.planned.replaces i _ _ hsite
  have hcore := h.getElem?_code hsite (Spill.getElem?_expand_core replacements instruction)
  have hvalues : ((instruction.rename (image replacements)).gen.map fun name => store' (id name)) =
      instruction.gen.map store := by
    rw [Instruction.gen_rename hreplaces.regular, List.map_map]
    exact List.map_congr_left hread
  have hold : ∀ item ∈ (instruction.rename (image replacements)).operands,
      item.beyond? function.locals = none := by
    intro item hitem
    rw [Instruction.operands_rename] at hitem
    obtain ⟨operand, hoperand, rfl⟩ := List.mem_map.1 hitem
    rw [Item.beyond?_rename]
    exact h.old instruction (List.mem_of_getElem? hsite.code_eq) operand hoperand
  obtain ⟨hhidden, hchoice, hvalue⟩ := semantics.rename instruction (image replacements)
    (instruction.gen.map store) frame.hidden hreplaces.regular
    fun v hv w hw heq => hreplaces.image_inj hv hw heq
  refine ⟨(semantics.act (instruction.rename (image replacements)) (instruction.gen.map store)
    frame.hidden).value, ?_, hvalue⟩
  rw [Liveness.step_eq hcore (semantics.actWith_of_old hold _), hvalues]
  simp only [Semantics.actBeside, hhidden, hchoice, Instruction.kill_rename hreplaces.regular]

/-- **The store of a block** copies the temporary into its cell. -/
theorem step_store (semantics : Semantics Value Hidden) {store : Name → Value}
    {frame : Frame Value Hidden} {r : Replacement}
    (hr : r ∈ replacements) {k : Nat}
    (hk : (expand replacements instruction)[k]? = some r.store)
    (hlast : k + 1 = (expand replacements instruction).length) :
    result'.step (semantics.spilledAction function.locals) id
        ⟨some (start plan function.code i + k), store, frame⟩ =
      ⟨((result.successorsAt i)[0]?).map (start plan function.code), store, ⟨frame.hidden,
        Function.update frame.cell r.offset (store (Name.ofVariable r.temporary))⟩⟩ := by
  have hbeyond := h.beyond _ _ (h.lookup_of_mem hsite hr)
  rw [Liveness.step_eq (h.getElem?_code hsite hk) (semantics.actWith_store hbeyond _),
    h.planned.successorsAt_last h.analysed h.analysed_spilled h.code_eq hsite hlast,
    List.getElem?_map]
  rfl

end Spilled

/-! ### Related machines -/

/-- **Two machines between blocks**: one that runs a function is before an instruction, one that
runs its spilled form at the start of its block.  Their hidden states are equal, names that are not
spilled have the same values, and the values of spilled variables are in their cells. -/
structure Related (function : Function) (plan : List (List Replacement))
    (slots : List (Name × Int64)) (a : Configuration Value Hidden)
    (b : Configuration Value (Frame Value Hidden)) : Prop where
  position : b.position = a.position.map (start plan function.code)
  hidden : b.hidden.hidden = a.hidden
  kept : ∀ name ∈ (Vocabulary.ofFunction function).names, slots.lookup name = none →
    b.store name = a.store name
  spilled : a.position.isSome = true → ∀ name offset, slots.lookup name = some offset →
    b.hidden.cell offset = a.store name

namespace Spilled

variable (h : Spilled function spilled targets plan slots result result')

include h

/-- A name of the function that has no cell is not touched by spilling. -/
theorem neutral {name : Name} (hname : name ∈ (Vocabulary.ofFunction function).names)
    (hslot : slots.lookup name = none) : Spill.Neutral plan name := by
  intro r hr
  constructor
  · rintro rfl
    rw [h.lookup r hr] at hslot
    simp at hslot
  · rintro rfl
    exact h.planned.temporary_not_known hr hname

variable (hsite : Site plan function.code i replacements instruction)

include hsite

theorem rename_kept {name : Name} (hname : name ∈ (Vocabulary.ofFunction function).names)
    (hslot : slots.lookup name = none) : Name.rename (image replacements) name = name := by
  have hneutral := h.neutral hname hslot
  apply Replaces.rename_neutral
  · intro r hr
    exact (Planned.neutral_of_site hneutral hsite hr).1
  · exact Vocabulary.mem_names_ofVariables.1 hname

/-- The loads bring every value that the instruction reads to where the instruction on temporaries
reads it. -/
theorem read_loaded {store store' store'' : Name → Value} {frame : Frame Value Hidden}
    (hkept : ∀ name ∈ (Vocabulary.ofFunction function).names, slots.lookup name = none →
      store' name = store name)
    (hcells : ∀ name offset, slots.lookup name = some offset → frame.cell offset = store name)
    (hother : ∀ name, (∀ r ∈ replacements, Name.ofVariable r.temporary ≠ name) →
      store'' name = store' name)
    (hloaded : ∀ r ∈ replacements, ∀ a < loadCount replacements instruction,
      (expand replacements instruction)[a]? = some r.load →
      store'' (Name.ofVariable r.temporary) = frame.cell r.offset) :
    ∀ name ∈ instruction.gen, store'' (Name.rename (image replacements) name) = store name := by
  intro name hgen
  have hmem := List.mem_of_getElem? hsite.code_eq
  have hreplaces := h.planned.replaces i _ _ hsite
  have hname : name ∈ (Vocabulary.ofFunction function).names := by
    rw [← h.analysed.vocabulary_eq]
    exact h.analysed.known instruction hmem name (Or.inl hgen)
  cases hslot : slots.lookup name with
  | none =>
      rw [h.rename_kept hsite hname hslot, hother, hkept name hname hslot]
      intro r hr
      exact (Planned.neutral_of_site (h.neutral hname hslot) hsite hr).2
  | some offset =>
      obtain ⟨-, v, -, rfl⟩ := h.slot name offset hslot
      have hv := Instruction.mem_vars_of_mem_gen_or_kill hreplaces.regular (Or.inl hgen)
      obtain ⟨r, hr, hvictim, hoffset⟩ := h.exists_replacement hsite hv hslot
      obtain ⟨a, ha, hload⟩ := Planned.exists_load hr (hvictim ▸ hgen)
      rw [← hvictim, hreplaces.rename_victim hr, hloaded r hr a ha hload, hoffset,
        hcells _ _ hslot, hvictim]

/-- After the instruction, names that are not spilled have the same values. -/
theorem kept_core {store store' : Name → Value} {value value' : Name → Value}
    (hvalue : ∀ name ∈ instruction.kill,
      value' (Name.rename (image replacements) name) = value name) {name : Name}
    (hname : name ∈ (Vocabulary.ofFunction function).names) (hslot : slots.lookup name = none)
    (hstore : store' name = store name) :
    overwrite id value' (instruction.kill.map (Name.rename (image replacements))) store' name =
      overwrite id value instruction.kill store name := by
  have hreplaces := h.planned.replaces i _ _ hsite
  have hrename := h.rename_kept hsite hname hslot
  have hkill := (h.planned.mem_core_of_neutral (h.neutral hname hslot) hsite).2
  rw [Instruction.kill_rename hreplaces.regular] at hkill
  by_cases hmem : name ∈ instruction.kill
  · rw [overwrite_id_of_mem (hkill.2 hmem), overwrite_id_of_mem hmem, ← hvalue name hmem, hrename]
  · rw [overwrite_id_of_not_mem fun hcore => hmem (hkill.1 hcore), overwrite_id_of_not_mem hmem,
      hstore]

/-- An instruction that overwrites a variable has at most the next instruction as successor. -/
theorem successorsAt_of_kill {r : Replacement} (hr : r ∈ replacements)
    (hkill : r.victim ∈ instruction.kill) : (result.successorsAt i).length ≤ 1 := by
  obtain ⟨-, hjump, hfalls⟩ := (h.planned.replaces i _ _ hsite).of_victim_mem_kill hr hkill
  obtain ⟨hsuccessors, -⟩ :=
    Function.successorsOf_eq_ok_iff.1 (h.analysed.successorsAt hsite.code_eq)
  rw [← hsuccessors, Function.jumpPosition?, hjump, if_pos hfalls, Function.next]
  split <;> simp

/-- After the store, spilled variables are in their cells. -/
theorem cells_store {store store' : Name → Value} {value value' : Name → Value}
    {cell : Int64 → Value} {r : Replacement} (hr : r ∈ replacements)
    (hkill : r.victim ∈ instruction.kill)
    (hvalue : ∀ name ∈ instruction.kill,
      value' (Name.rename (image replacements) name) = value name) {name : Name} {offset : Int64}
    (hslot : slots.lookup name = some offset) (hcell : cell offset = store name) :
    Function.update cell r.offset (overwrite id value'
      (instruction.kill.map (Name.rename (image replacements))) store'
      (Name.ofVariable r.temporary)) offset = overwrite id value instruction.kill store name := by
  have hreplaces := h.planned.replaces i _ _ hsite
  have hlookup := h.lookup_of_mem hsite hr
  by_cases hoffset : offset = r.offset
  · obtain rfl : name = r.victim := h.inj _ _ _ hslot (hoffset ▸ hlookup)
    rw [hoffset, Function.update_self, ← hreplaces.rename_victim hr,
      overwrite_id_of_mem (List.mem_map_of_mem hkill), overwrite_id_of_mem hkill, hvalue _ hkill]
  · rw [Function.update_of_ne hoffset, hcell, overwrite_id_of_not_mem]
    intro hname
    rw [(hreplaces.of_victim_mem_kill hr hkill).1, List.mem_singleton] at hname
    rw [← hname, hslot, Option.some_inj] at hlookup
    exact hoffset hlookup

/-- The machine at the instruction on temporaries, after it. -/
theorem run_core (semantics : Semantics Value Hidden) {store store' : Name → Value}
    {frame : Frame Value Hidden}
    (hkept : ∀ name ∈ (Vocabulary.ofFunction function).names, slots.lookup name = none →
      store' name = store name)
    (hcells : ∀ name offset, slots.lookup name = some offset → frame.cell offset = store name) :
    ∃ store'' value, result'.run (semantics.spilledAction function.locals) id
        (loadCount replacements instruction + 1)
        ⟨some (start plan function.code i), store', frame⟩ =
      ⟨(result'.successorsAt
          (start plan function.code i + loadCount replacements instruction))[
            (semantics.act instruction (instruction.gen.map store) frame.hidden).choice]?,
        overwrite id value (instruction.kill.map (Name.rename (image replacements))) store'',
        ⟨(semantics.act instruction (instruction.gen.map store) frame.hidden).hidden,
          frame.cell⟩⟩ ∧
      (∀ name ∈ (Vocabulary.ofFunction function).names, slots.lookup name = none →
        store'' name = store name) ∧
      ∀ name ∈ instruction.kill, value (Name.rename (image replacements) name) =
        (semantics.act instruction (instruction.gen.map store) frame.hidden).value name := by
  obtain ⟨store'', hloads, hother, hloaded⟩ :=
    h.run_loads hsite semantics store' frame (Nat.le_refl _)
  have hread := h.read_loaded hsite hkept hcells hother hloaded
  obtain ⟨value, hcore, hvalue⟩ := h.step_core hsite semantics frame hread
  refine ⟨store'', value, by rw [Liveness.run_succ, hloads, hcore], ?_, hvalue⟩
  intro name hname hslot
  rw [hother, hkept name hname hslot]
  intro r hr
  exact (Planned.neutral_of_site (h.neutral hname hslot) hsite hr).2

end Spilled

variable {a : Configuration Value Hidden} {b : Configuration Value (Frame Value Hidden)}

/-- Machines stay related through an instruction that overwrites no spilled variable. -/
theorem Related.block_without_store (h : Spilled function spilled targets plan slots result result')
    (hsite : Site plan function.code i replacements instruction)
    (semantics : Semantics Value Hidden) {store store' : Name → Value}
    {frame : Frame Value Hidden}
    (hkept : ∀ name ∈ (Vocabulary.ofFunction function).names, slots.lookup name = none →
      store' name = store name)
    (hcells : ∀ name offset, slots.lookup name = some offset → frame.cell offset = store name)
    (hstores : storeCount replacements instruction = 0) :
    Related function plan slots
      (result.step semantics.action id ⟨some i, store, frame.hidden⟩)
      (result'.run (semantics.spilledAction function.locals) id
        (loadCount replacements instruction + 1)
        ⟨some (start plan function.code i), store', frame⟩) := by
  have hlength := Spill.length_expand replacements instruction
  have hi : result.function.code[i]? = some instruction := by
    rw [h.analysed.function_eq, hsite.code_eq]
  obtain ⟨store'', value, hrun, hkept', hvalue⟩ := h.run_core hsite semantics hkept hcells
  rw [hrun, Liveness.step_eq hi rfl, h.planned.successorsAt_last h.analysed h.analysed_spilled
    h.code_eq hsite (by omega), List.getElem?_map]
  refine ⟨rfl, rfl, ?_, ?_⟩
  · intro name hname hslot
    exact h.kept_core hsite hvalue hname hslot (hkept' name hname hslot)
  · intro _ name offset hslot
    dsimp only
    rw [overwrite_id_of_not_mem, hcells name offset hslot]
    intro hkill
    -- a spilled variable that is overwritten would be stored
    obtain ⟨-, v, -, rfl⟩ := h.slot name offset hslot
    have hv := Instruction.mem_vars_of_mem_gen_or_kill (h.planned.replaces i _ _ hsite).regular
      (Or.inr hkill)
    obtain ⟨r, hr, hvictim, -⟩ := h.exists_replacement hsite hv hslot
    have hpos := Spill.storeCount_pos hr (hvictim ▸ hkill)
    omega

/-- Machines stay related through an instruction that overwrites a spilled variable. -/
theorem Related.block_with_store (h : Spilled function spilled targets plan slots result result')
    (hsite : Site plan function.code i replacements instruction)
    (semantics : Semantics Value Hidden) {store store' : Name → Value}
    {frame : Frame Value Hidden}
    (hkept : ∀ name ∈ (Vocabulary.ofFunction function).names, slots.lookup name = none →
      store' name = store name)
    (hcells : ∀ name offset, slots.lookup name = some offset → frame.cell offset = store name)
    (hstores : 0 < storeCount replacements instruction) :
    ∃ m, 0 < m ∧ Related function plan slots
      (result.step semantics.action id ⟨some i, store, frame.hidden⟩)
      (result'.run (semantics.spilledAction function.locals) id m
        ⟨some (start plan function.code i), store', frame⟩) := by
  have hlength := Spill.length_expand replacements instruction
  have hone := (h.planned.replaces i _ _ hsite).storeCount_le_one
  have hi : result.function.code[i]? = some instruction := by
    rw [h.analysed.function_eq, hsite.code_eq]
  obtain ⟨store'', value, hrun, hkept', hvalue⟩ := h.run_core hsite semantics hkept hcells
  obtain ⟨r, hr, hkill, hstep⟩ := Spill.exists_store hstores
  have hsuccessors := h.successorsAt_of_kill hsite hr hkill
  rw [h.planned.successorsAt_inside h.analysed_spilled h.code_eq hsite (by omega)] at hrun
  have hleft : result.step semantics.action id ⟨some i, store, frame.hidden⟩ =
      ⟨(result.successorsAt i)[
          (semantics.act instruction (instruction.gen.map store) frame.hidden).choice]?,
        overwrite id (semantics.act instruction (instruction.gen.map store) frame.hidden).value
          instruction.kill store,
        (semantics.act instruction (instruction.gen.map store) frame.hidden).hidden⟩ :=
    Liveness.step_eq hi rfl
  rw [hleft]
  cases hchoice : (semantics.act instruction (instruction.gen.map store) frame.hidden).choice with
  | succ c =>
      -- there is no such successor: both machines stop before the store
      refine ⟨loadCount replacements instruction + 1, Nat.succ_pos _, ?_⟩
      have hnone : (result.successorsAt i)[c + 1]? = none :=
        List.getElem?_eq_none_iff.2 (by omega)
      rw [hrun, hchoice, hnone]
      refine ⟨rfl, rfl, ?_, fun hsome => by simp at hsome⟩
      intro name hname hslot
      exact h.kept_core hsite hvalue hname hslot (hkept' name hname hslot)
  | zero =>
      refine ⟨loadCount replacements instruction + 1 + 1, Nat.succ_pos _, ?_⟩
      rw [Liveness.run_succ, hrun, hchoice, List.getElem?_cons_zero,
        h.step_store hsite semantics hr hstep (by omega)]
      refine ⟨rfl, rfl, ?_, ?_⟩
      · intro name hname hslot
        exact h.kept_core hsite hvalue hname hslot (hkept' name hname hslot)
      · intro _ name offset hslot
        exact h.cells_store hsite hr hkill hvalue hslot (hcells name offset hslot)

/-- **Machines that are related are related again after an instruction and its block.** -/
theorem Related.step (h : Spilled function spilled targets plan slots result result')
    (semantics : Semantics Value Hidden) (hrelated : Related function plan slots a b) :
    ∃ m, 0 < m ∧ Related function plan slots (result.step semantics.action id a)
      (result'.run (semantics.spilledAction function.locals) id m b) := by
  obtain ⟨pa, store, hidden⟩ := a
  obtain ⟨pb, store', frame⟩ := b
  obtain ⟨hposition, hhidden, hkept, hspilled⟩ := hrelated
  dsimp only at hposition hhidden hkept hspilled
  subst hposition hhidden
  cases pa with
  | none => exact ⟨1, Nat.one_pos, rfl, rfl, hkept, fun hsome => by simp at hsome⟩
  | some i =>
      cases hi : function.code[i]? with
      | none =>
          -- outside the code both machines stop
          have hend := h.planned.start_of_length_le (List.getElem?_eq_none_iff.1 hi)
          have hleft : result.function.code[i]? = none := by rw [h.analysed.function_eq, hi]
          have hright : result'.function.code[start plan function.code i]? = none := by
            rw [h.analysed_spilled.function_eq, h.code_eq, List.getElem?_eq_none_iff]
            exact Nat.le_of_eq hend.symm
          have hrun : result'.run (semantics.spilledAction function.locals) id 1
              ⟨some (start plan function.code i), store', frame⟩ = ⟨none, store', frame⟩ :=
            Liveness.step_outside hright
          refine ⟨1, Nat.one_pos, ?_⟩
          rw [Option.map_some, hrun, Liveness.step_outside hleft]
          exact ⟨rfl, rfl, hkept, fun hsome => by simp at hsome⟩
      | some instruction =>
          obtain ⟨replacements, hsite⟩ := h.planned.exists_site_at hi
          rcases Nat.eq_zero_or_pos (storeCount replacements instruction) with hzero | hpos
          · exact ⟨_, Nat.succ_pos _, Related.block_without_store h hsite semantics hkept
              (hspilled rfl) hzero⟩
          · exact Related.block_with_store h hsite semantics hkept (hspilled rfl) hpos

/-- **Machines that are related stay related**, and neither gets stuck in a block. -/
theorem Related.run (h : Spilled function spilled targets plan slots result result')
    (semantics : Semantics Value Hidden) (hrelated : Related function plan slots a b) (n : Nat) :
    ∃ m, n ≤ m ∧ Related function plan slots (result.run semantics.action id n a)
      (result'.run (semantics.spilledAction function.locals) id m b) := by
  induction n generalizing a b with
  | zero => exact ⟨0, Nat.le_refl _, hrelated⟩
  | succ n ih =>
      obtain ⟨m, hm, hstep⟩ := hrelated.step h semantics
      obtain ⟨m', hm', hrun⟩ := ih hstep
      refine ⟨m + m', by omega, ?_⟩
      rw [Liveness.run_add m m']
      exact hrun

end Blocks

/-! ### Functions that are read -/

section Read

variable {function : Function} {result : Liveness} {targets : List Name} {names : NameSupply}

/-- The cells of a spilled function belong to the variables that are to be spilled. -/
theorem Function.exists_slot_iff {name : Name} :
    (∃ offset, (function.spillSlots targets names).lookup name = some offset) ↔
      name ∈ targets ∧ ∃ v ∈ function.vars, name = Name.ofVariable v := by
  rw [← Option.isSome_iff_exists, List.lookup_isSome_iff,
    ← function.mem_slots_iff targets names, List.mem_map]
  simp only [beq_iff_eq, @eq_comm _ name]

/-- What is known of a function that is read and its spilled form. -/
theorem spilled_of_isParsed {result' : Liveness} (hparsed : function.IsParsed)
    (havoids : ∀ v ∈ function.vars, names.Avoids v)
    (hroom : function.locals.toNat + targets.length ≤ 2 ^ 60)
    (hanalyse : Liveness.analyse function = .ok result)
    (hanalyse' : Liveness.analyse (function.spill targets names).function = .ok result') :
    Spilled function (function.spill targets names).function targets
      (function.spillPlan targets names) (function.spillSlots targets names) result result' := by
  have hframed := function.framed_spill targets names
  refine ⟨Function.planned_spill hparsed.regular havoids, function.code_spill targets names,
    Liveness.analysed_of_analyse hanalyse, Liveness.analysed_of_analyse hanalyse',
    ?_, ?_, ?_, ?_, ?_⟩
  · exact (Spill.lookup_slots targets ⟨function.locals, [], names, []⟩ function.code).1
  · intro name offset hslot
    exact Function.exists_slot_iff.1 ⟨offset, hslot⟩
  · intro name other offset hname hother
    exact hframed.inj hroom hname hother
  · intro name offset hslot
    exact hframed.beyond hroom hslot
  · intro instruction hmem item hitem
    apply Item.beyond?_of_frameSize_le
    rw [hparsed.locals_eq]
    exact frameSize_le_inferLocals hmem hitem

/-- **Spilling preserves meaning.**  A function that is read and can be analysed can be analysed
after spilling.  Its code is then a list of blocks, one for each instruction, and each spilled
variable has a cell of its own.  From machines that are related, whatever the instructions mean,
every run of the function leads to a machine that is related to one that a run of the spilled
function leads to. -/
theorem spilled_runs_related {Value Hidden : Type} (semantics : Semantics Value Hidden)
    (hparsed : function.IsParsed) (hanalyse : Liveness.analyse function = .ok result)
    (havoids : ∀ v ∈ function.vars, v ∈ names.taken)
    (hroom : function.locals.toNat + targets.length ≤ 2 ^ 60) :
    ∃ result', Liveness.analyse (function.spill targets names).function = .ok result' ∧
      (function.spill targets names).function.code =
        (List.zipWith expand (function.spillPlan targets names) function.code).flatten ∧
      (∀ name, (∃ offset, (function.spillSlots targets names).lookup name = some offset) ↔
        name ∈ targets ∧ ∃ v ∈ function.vars, name = Name.ofVariable v) ∧
      (∀ name other offset, (function.spillSlots targets names).lookup name = some offset →
        (function.spillSlots targets names).lookup other = some offset → name = other) ∧
      ∀ (a : Configuration Value Hidden) (b : Configuration Value (Frame Value Hidden)),
        Related function (function.spillPlan targets names) (function.spillSlots targets names) a
          b →
        ∀ n, ∃ m, n ≤ m ∧
          Related function (function.spillPlan targets names) (function.spillSlots targets names)
            (result.run semantics.action id n a)
            (result'.run (semantics.spilledAction function.locals) id m b) := by
  have havoids' : ∀ v ∈ function.vars, names.Avoids v := fun v hv => Or.inl (havoids v hv)
  obtain ⟨result', hanalyse'⟩ := Function.analyse_spill hparsed.regular havoids' hanalyse
  have hspilled := spilled_of_isParsed hparsed havoids' hroom hanalyse hanalyse'
  exact ⟨result', hanalyse', hspilled.code_eq,
    fun name => Function.exists_slot_iff, hspilled.inj,
    fun a b hrelated n => hrelated.run hspilled semantics n⟩

end Read

/-- A function that adds to a variable. -/
def adding : Function :=
  .ofCode "adding" 1 [.assign (.var "x") (.number 1), .arith .add (.var "x") (.register "rdi"),
    .assign (.register "rax") (.var "x"), .ret]

theorem adding_isParsed : adding.IsParsed :=
  Or.inl ⟨"(@adding 1 (%x <- 1) (%x += rdi) (rax <- %x) (return))".toList, rfl⟩

/-- Instructions that write one more than the sum of what they read, and count it in the hidden
state. -/
def tallying : Semantics Nat Nat where
  act := fun _ read hidden => ⟨fun _ => read.foldl (· + ·) 1, read.foldl (· + ·) hidden, 0⟩
  rename := fun _ _ _ _ _ _ => ⟨rfl, rfl, fun _ _ => rfl⟩

theorem adding_spilled_runs_related :
    ∃ result result', Liveness.analyse adding = .ok result ∧
      (∀ v ∈ adding.vars, v ∈ (NameSupply.ofTaken "S" adding.vars).taken) ∧
      adding.locals.toNat + ["%x"].length ≤ 2 ^ 60 ∧
      Liveness.analyse (adding.spill ["%x"] (.ofTaken "S" adding.vars)).function = .ok result' ∧
      (adding.spillSlots ["%x"] (.ofTaken "S" adding.vars)).lookup "%x" = some 0 ∧
      ∀ n, ∃ m, n ≤ m ∧
        (result'.run (tallying.spilledAction adding.locals) id m
          ⟨some 0, fun _ => 2, ⟨0, fun _ => 2⟩⟩).hidden.hidden =
        (result.run tallying.action id n ⟨some 0, fun _ => 2, 0⟩).hidden := by
  have havoids : ∀ v ∈ adding.vars, v ∈ (NameSupply.ofTaken "S" adding.vars).taken := by decide
  have hroom : adding.locals.toNat + ["%x"].length ≤ 2 ^ 60 := by decide
  obtain ⟨result', hanalyse', -, -, -, hruns⟩ := spilled_runs_related tallying adding_isParsed
    (show Liveness.analyse adding = .ok _ from rfl) havoids hroom
  refine ⟨_, result', rfl, havoids, hroom, hanalyse', by decide, ?_⟩
  intro n
  obtain ⟨m, hm, hrelated⟩ := hruns ⟨some 0, fun _ => 2, 0⟩ ⟨some 0, fun _ => 2, ⟨0, fun _ => 2⟩⟩
    ⟨rfl, rfl, fun _ _ _ => rfl, fun _ _ _ _ => rfl⟩ n
  exact ⟨m, hm, hrelated.hidden⟩

end RegisterColouring
