/-
**Frames over rounds of spilling.**

A function can be spilled round after round, each time with the names that the round before has left.
All cells that are given follow the frame of the first function, one after the other, and the code
mentions them beside the cells that it mentioned before.  Offsets are words.  As long as the cells
stay below `2 ^ 60`, which is the largest frame of a function that is read, a cell lies where its
number says, no cell is given twice or was in use, and the frame is the smallest that holds the cells
of the code.  The next cell has a negative offset: it may be in use, and no frame counts it.

Main definitions:

* `RegisterColouring.Function.cells` — the cells that a function mentions;
* `RegisterColouring.Function.spillEach`, `RegisterColouring.Function.slotsEach` — rounds of spilling,
  and the cells they give;
* `RegisterColouring.Function.FrameSound` — **what a frame should be**.

Main results:

* `RegisterColouring.inferLocals_le_iff` — the smallest frame, by the cells of the code;
* `RegisterColouring.Function.mem_cells_spill` — the cells that spilled code mentions;
* `RegisterColouring.Function.frame_sound_iff` — **when the frame is what it should be**;
* `RegisterColouring.deep_frame_unsound` — a function with a frame that is not.
-/

import RegisterColouring.Proofs.ReadBack
import RegisterColouring.Proofs.SpillContract

set_option autoImplicit false

namespace RegisterColouring

/-! ### The cells that code mentions -/

/-- The offset of a cell that is addressed from the stack pointer. -/
def Item.cell? : Item → Option Int64
  | memory (register name) offset => if name = Register.stackPointer then some offset else none
  | _ => none

/-- The cells that an instruction mentions. -/
def Instruction.cells (instruction : Instruction) : List Int64 :=
  instruction.operands.filterMap Item.cell?

/-- **The cells that a function mentions.** -/
def Function.cells (function : Function) : List Int64 := function.code.flatMap Instruction.cells

@[simp] theorem Item.cell?_slot (offset : Int64) : (slot offset).cell? = some offset := by
  simp [slot, cell?]

@[simp] theorem Item.cell?_rename {image : String → String} (item : Item) :
    (item.rename image).cell? = item.cell? := by
  cases item with
  | memory base offset => cases base <;> rfl
  | _ => rfl

@[simp] theorem Instruction.cells_rename {image : String → String} (instruction : Instruction) :
    (instruction.rename image).cells = instruction.cells := by
  rw [cells, cells, operands_rename, List.filterMap_map]
  exact List.filterMap_congr fun item _ => Item.cell?_rename item

/-- Only cells that are addressed from the stack pointer take room in a frame. -/
theorem Item.frameSize_cases (item : Item) :
    item.frameSize = 0 ∨ ∃ offset, item = slot offset := by
  cases item with
  | memory base offset =>
      cases base with
      | register name =>
          by_cases hname : name = Register.stackPointer
          · exact Or.inr ⟨offset, by rw [slot, hname]⟩
          · exact Or.inl (by simp [frameSize, hname])
      | _ => exact Or.inl rfl
  | _ => exact Or.inl rfl

theorem Item.eq_slot_of_cell? {item : Item} {offset : Int64} (h : item.cell? = some offset) :
    item = slot offset := by
  cases item with
  | memory base offset' =>
      cases base with
      | register name =>
          simp only [cell?, Option.ite_none_right_eq_some, Option.some.injEq] at h
          rw [slot, h.1, h.2]
      | _ => simp [cell?] at h
  | _ => simp [cell?] at h

/-- **The smallest frame**, by the cells of the code. -/
theorem inferLocals_le_iff {code : List Instruction} {locals : UInt64} :
    inferLocals code ≤ locals ↔
      ∀ offset ∈ code.flatMap Instruction.cells, (Item.slot offset).frameSize ≤ locals := by
  constructor
  · intro hle offset hoffset
    obtain ⟨instruction, hmem, hoffset⟩ := List.mem_flatMap.1 hoffset
    obtain ⟨item, hitem, hcell⟩ := List.mem_filterMap.1 hoffset
    rw [Item.eq_slot_of_cell? hcell] at hitem
    exact UInt64.le_trans (frameSize_le_inferLocals hmem hitem) hle
  · intro hcells
    refine inferLocals_le fun instruction hmem item hitem => ?_
    rcases item.frameSize_cases with hzero | ⟨offset, rfl⟩
    · rw [hzero, UInt64.le_iff_toNat_le]
      exact Nat.zero_le _
    · exact hcells offset (List.mem_flatMap.2 ⟨instruction, hmem,
        List.mem_filterMap.2 ⟨_, hitem, Item.cell?_slot offset⟩⟩)

/-- **The largest frame** of a function that is read. -/
theorem Function.IsParsed.locals_le {function : Function} (h : function.IsParsed) :
    function.locals.toNat ≤ 2 ^ 60 := by
  have hle : inferLocals function.code ≤ UInt64.ofNat (2 ^ 60) := by
    rw [inferLocals_le_iff]
    intro offset _
    rw [UInt64.le_iff_toNat_le]
    by_cases hnonneg : 0 ≤ offset.toInt
    · have hsize := Item.toNat_frameSize_slot hnonneg
      have hlt := offset.toInt_lt
      have hbound : (UInt64.ofNat (2 ^ 60)).toNat = 2 ^ 60 := rfl
      omega
    · have hneg : ¬ 0 ≤ offset := by simpa [Int64.le_iff_toInt_le] using hnonneg
      have hzero : (Item.slot offset).frameSize = 0 := by simp [Item.slot, Item.frameSize, hneg]
      rw [hzero]
      exact Nat.zero_le _
  rw [h.locals_eq]
  exact UInt64.le_iff_toNat_le.1 hle

/-! ### The cells that spilled code mentions -/

namespace Spill

variable {targets : List Name} {offset : Int64}

theorem mem_cells_expand {instruction : Instruction} {replacements : List Replacement}
    (htracked : ∀ r ∈ replacements, r.victim ∈ instruction.gen ∨ r.victim ∈ instruction.kill) :
    offset ∈ (expand replacements instruction).flatMap Instruction.cells ↔
      offset ∈ instruction.cells ∨ ∃ r ∈ replacements, r.offset = offset := by
  have hload : ∀ r : Replacement, r.load.cells = [r.offset] := fun _ => rfl
  have hstore : ∀ r : Replacement, r.store.cells = [r.offset] := fun _ => rfl
  simp only [expand, List.flatMap_append, List.flatMap_cons, List.mem_append, List.flatMap_map,
    hload, hstore, Instruction.cells_rename, List.mem_flatMap, List.mem_filter, List.mem_singleton,
    List.contains_eq_mem, decide_eq_true_eq]
  constructor
  · rintro (⟨r, ⟨hr, -⟩, rfl⟩ | hcell | ⟨r, ⟨hr, -⟩, rfl⟩)
    · exact Or.inr ⟨r, hr, rfl⟩
    · exact Or.inl hcell
    · exact Or.inr ⟨r, hr, rfl⟩
  · rintro (hcell | ⟨r, hr, rfl⟩)
    · exact Or.inr (Or.inl hcell)
    · rcases htracked r hr with hgen | hkill
      · exact Or.inl ⟨r, ⟨hr, hgen⟩, rfl⟩
      · exact Or.inr (Or.inr ⟨r, ⟨hr, hkill⟩, rfl⟩)

theorem mem_cells_code (targets : List Name) (state : State) (list : List Instruction) :
    offset ∈ (code targets state list).1.flatMap Instruction.cells ↔
      offset ∈ list.flatMap Instruction.cells ∨
        ∃ r ∈ (plan targets state list).flatten, r.offset = offset := by
  induction list generalizing state with
  | nil => simp [code, plan]
  | cons instruction rest ih =>
      have htracked : ∀ r ∈ (state.replaceAll (victims targets instruction)).1,
          r.victim ∈ instruction.gen ∨ r.victim ∈ instruction.kill := by
        intro r hr
        have hvictim : r.victim ∈ victims targets instruction := by
          rw [← victims_replaceAll state (victims targets instruction)]
          exact List.mem_map_of_mem hr
        obtain ⟨-, v, hv, heq⟩ := mem_victims.1 hvictim
        rw [heq]
        exact Instruction.mem_gen_or_kill_of_mem_vars hv
      rw [code, plan, List.flatMap_append, List.mem_append, mem_cells_expand htracked, ih,
        List.flatMap_cons, List.mem_append, List.flatten_cons]
      simp only [List.mem_append, or_and_right, exists_or]
      exact or_or_or_comm

end Spill

namespace Function

variable {function : Function} {targets : List Name} {names : NameSupply} {offset : Int64}

/-- The cells that replacements use are the cells that are given. -/
theorem mem_offsets_iff :
    (∃ r ∈ (function.spillPlan targets names).flatten, r.offset = offset) ↔
      offset ∈ (function.spillSlots targets names).map Prod.snd := by
  rw [List.mem_map]
  constructor
  · rintro ⟨r, hr, rfl⟩
    exact ⟨_, mem_slots_of_mem_plan hr, rfl⟩
  · rintro ⟨⟨name, offset⟩, hentry, rfl⟩
    obtain ⟨htarget, v, hv, rfl⟩ :=
      (function.mem_slots_iff targets names).1 (List.mem_map_of_mem hentry)
    obtain ⟨instruction, hmem, hv⟩ := mem_vars.1 hv
    obtain ⟨r, hr, hvictim⟩ := Spill.exists_mem_plan hmem hv htarget
      ⟨function.locals, [], names, []⟩
    refine ⟨r, hr, ?_⟩
    rw [offset_eq_slotOf hr, hvictim, slotOf_of_mem hentry]

/-- **The cells that spilled code mentions**: those that it mentioned before and those that are
given. -/
theorem mem_cells_spill :
    offset ∈ (function.spill targets names).function.cells ↔
      offset ∈ function.cells ∨ offset ∈ (function.spillSlots targets names).map Prod.snd := by
  rw [← mem_offsets_iff]
  exact Spill.mem_cells_code targets ⟨function.locals, [], names, []⟩ function.code

/-! ### Rounds -/

/-- A function after rounds of spilling, each with the names that the round before has left. -/
def spillEach (function : Function) (names : NameSupply) : List (List Name) → Function
  | [] => function
  | targets :: rounds =>
    (function.spill targets names).function.spillEach (function.spill targets names).names rounds

/-- **The cells that rounds of spilling give**, in order. -/
def slotsEach (function : Function) (names : NameSupply) :
    List (List Name) → List (Name × Int64)
  | [] => []
  | targets :: rounds => function.spillSlots targets names ++
    (function.spill targets names).function.slotsEach (function.spill targets names).names rounds

theorem locals_spillEach (function : Function) (names : NameSupply) (rounds : List (List Name)) :
    (function.spillEach names rounds).locals =
      function.locals + UInt64.ofNat (function.slotsEach names rounds).length := by
  induction rounds generalizing function names with
  | nil => simp [spillEach, slotsEach]
  | cons targets rounds ih =>
      rw [spillEach, slotsEach, ih, locals_spill_slots, List.length_append, UInt64.ofNat_add,
        UInt64.add_assoc]

/-- The cells of all rounds follow the frame of the first function one after the other. -/
theorem map_snd_slotsEach (function : Function) (names : NameSupply) (rounds : List (List Name)) :
    (function.slotsEach names rounds).map Prod.snd =
      Spill.offsets function.locals (function.slotsEach names rounds).length := by
  induction rounds generalizing function names with
  | nil => rfl
  | cons targets rounds ih =>
      rw [slotsEach, List.map_append, map_snd_slots, ih, locals_spill_slots, List.length_append,
        Spill.offsets_append]

theorem mem_slotsEach {rounds : List (List Name)} :
    offset ∈ (function.slotsEach names rounds).map Prod.snd ↔
      ∃ k < (function.slotsEach names rounds).length, offset = Spill.offset function.locals k := by
  rw [map_snd_slotsEach, Spill.mem_offsets]

theorem mem_cells_spillEach (function : Function) (names : NameSupply)
    (rounds : List (List Name)) :
    offset ∈ (function.spillEach names rounds).cells ↔
      offset ∈ function.cells ∨ offset ∈ (function.slotsEach names rounds).map Prod.snd := by
  induction rounds generalizing function names with
  | nil => simp [spillEach, slotsEach]
  | cons targets rounds ih =>
      rw [spillEach, slotsEach, ih, mem_cells_spill, List.map_append, List.mem_append, or_assoc]

/-- The code of a function that is read mentions only cells of its frame. -/
theorem IsParsed.frameSize_le (h : function.IsParsed) (hoffset : offset ∈ function.cells) :
    (Item.slot offset).frameSize.toNat ≤ function.locals.toNat := by
  rw [h.locals_eq]
  exact UInt64.le_iff_toNat_le.1 (inferLocals_le_iff.1 (UInt64.le_refl _) offset hoffset)

/-! ### Sound frames -/

/-- **What a frame should be** after cells have been given: the cell with number `k` lies at `8 * k`
and the numbers start at the end of the first frame, no two cells are the same, none was in use, and
the frame is the smallest that holds the cells of the code. -/
structure FrameSound (function : Function) (slots : List (Name × Int64)) (final : Function) :
    Prop where
  number : ∀ (k : Nat) (name : Name) (offset : Int64), slots[k]? = some (name, offset) →
    offset.toInt = 8 * ((function.locals.toNat + k : Nat) : Int) ∧
      function.locals.toNat + k < final.locals.toNat
  nonneg : ∀ offset ∈ slots.map Prod.snd, 0 ≤ offset.toInt
  distinct : (slots.map Prod.snd).Nodup
  unused : ∀ offset ∈ slots.map Prod.snd, offset ∉ function.cells
  inferred : final.reframe = final

section Room

variable {rounds : List (List Name)}
  (hroom : function.locals.toNat + (function.slotsEach names rounds).length ≤ 2 ^ 60)

include hroom

theorem toNat_locals_spillEach :
    (function.spillEach names rounds).locals.toNat =
      function.locals.toNat + (function.slotsEach names rounds).length := by
  rw [locals_spillEach, UInt64.toNat_add, UInt64.toNat_ofNat']
  omega

variable (hparsed : function.IsParsed)

include hparsed

/-- The frame is the smallest that holds the cells of the code. -/
theorem inferLocals_spillEach :
    inferLocals (function.spillEach names rounds).code =
      (function.spillEach names rounds).locals := by
  have hlocals := toNat_locals_spillEach hroom
  have hmentioned : ∀ offset ∈ (function.spillEach names rounds).cells,
      (Item.slot offset).frameSize ≤ inferLocals (function.spillEach names rounds).code :=
    inferLocals_le_iff.1 (UInt64.le_refl _)
  refine UInt64.le_antisymm (inferLocals_le_iff.2 ?_) (UInt64.le_iff_toNat_le.2 ?_)
  · intro offset hoffset
    rw [UInt64.le_iff_toNat_le]
    rcases (function.mem_cells_spillEach names rounds).1 hoffset with hold | hnew
    · have hle := hparsed.frameSize_le hold
      omega
    · obtain ⟨k, hk, rfl⟩ := mem_slotsEach.1 hnew
      rw [Spill.toNat_frameSize_offset (by omega)]
      omega
  · rcases Nat.eq_zero_or_pos (function.slotsEach names rounds).length with hnone | hsome
    -- without a new cell the frame is the first one
    · have hle : inferLocals function.code ≤ inferLocals (function.spillEach names rounds).code :=
        inferLocals_le_iff.2 fun offset hoffset =>
          hmentioned offset ((function.mem_cells_spillEach names rounds).2 (Or.inl hoffset))
      rw [← hparsed.locals_eq, UInt64.le_iff_toNat_le] at hle
      omega
    -- otherwise the last cell needs all of it
    · have hlast := (function.mem_cells_spillEach names rounds).2
        (Or.inr (mem_slotsEach.2 ⟨_, Nat.sub_one_lt_of_lt hsome, rfl⟩))
      have hle := UInt64.le_iff_toNat_le.1 (hmentioned _ hlast)
      rw [Spill.toNat_frameSize_offset (by omega)] at hle
      omega

/-- The frame is what it should be as long as its cells stay below `2 ^ 60`. -/
theorem frameSound_of_room :
    FrameSound function (function.slotsEach names rounds) (function.spillEach names rounds) where
  number k name offset hk := by
    have hlt := (List.getElem?_eq_some_iff.1 hk).1
    have hsnd : ((function.slotsEach names rounds).map Prod.snd)[k]? = some offset := by
      rw [List.getElem?_map, hk, Option.map_some]
    rw [map_snd_slotsEach, Spill.offsets, List.getElem?_map, List.getElem?_range hlt,
      Option.map_some, Option.some.injEq] at hsnd
    rw [← hsnd, toNat_locals_spillEach hroom]
    exact ⟨Spill.toInt_offset (by omega), by omega⟩
  nonneg offset hoffset := by
    obtain ⟨k, hk, rfl⟩ := mem_slotsEach.1 hoffset
    rw [Spill.toInt_offset (by omega)]
    omega
  distinct := by
    rw [map_snd_slotsEach, Spill.nodup_offsets_iff]
    omega
  unused offset hoffset := by
    obtain ⟨k, hk, rfl⟩ := mem_slotsEach.1 hoffset
    intro hmem
    have hle := hparsed.frameSize_le hmem
    rw [Spill.toNat_frameSize_offset (by omega)] at hle
    omega
  inferred := by
    rw [reframe, ofCode, inferLocals_spillEach hroom hparsed]

end Room

/-- A frame that is what it should be has its cells below `2 ^ 60`. -/
theorem FrameSound.room (hparsed : function.IsParsed) {slots : List (Name × Int64)}
    {final : Function} (h : FrameSound function slots final) :
    function.locals.toNat + slots.length ≤ 2 ^ 60 := by
  rcases slots.eq_nil_or_concat with rfl | ⟨before, ⟨name, offset⟩, rfl⟩
  · exact hparsed.locals_le
  · obtain ⟨hoffset, -⟩ := h.number before.length name offset (by simp)
    have hlt := offset.toInt_lt
    rw [List.length_concat]
    omega

/-- **When the frame is what it should be** after rounds of spilling.  In any case the frame grows by
the cells that are given, these follow one after the other, the code mentions them beside the old
ones, and they are different until there are no more offsets. -/
theorem frame_sound_iff (hparsed : function.IsParsed) (names : NameSupply)
    (rounds : List (List Name)) :
    (function.spillEach names rounds).locals =
        function.locals + UInt64.ofNat (function.slotsEach names rounds).length ∧
      (function.slotsEach names rounds).map Prod.snd =
        Spill.offsets function.locals (function.slotsEach names rounds).length ∧
      (∀ offset, offset ∈ (function.spillEach names rounds).cells ↔
        offset ∈ function.cells ∨ offset ∈ (function.slotsEach names rounds).map Prod.snd) ∧
      (((function.slotsEach names rounds).map Prod.snd).Nodup ↔
        (function.slotsEach names rounds).length ≤ 2 ^ 61) ∧
      (FrameSound function (function.slotsEach names rounds) (function.spillEach names rounds) ↔
        function.locals.toNat + (function.slotsEach names rounds).length ≤ 2 ^ 60) := by
  refine ⟨function.locals_spillEach names rounds, function.map_snd_slotsEach names rounds,
    fun offset => function.mem_cells_spillEach names rounds, ?_,
    fun h => h.room hparsed, fun hroom => frameSound_of_room hroom hparsed⟩
  rw [map_snd_slotsEach, Spill.nodup_offsets_iff]

end Function

/-- A function with two cells in its frame. -/
def framed : Function :=
  .ofCode "framed" 0 [.assign (Item.slot 8) (.number 1), .assign (.var "x") (.number 2),
    .assign (.var "y") (.var "x"), .assign (.register "rax") (.var "y"), .ret]

theorem framed_frame_sound :
    framed.IsParsed ∧
      framed.slotsEach (.ofTaken "t" framed.vars) [["%x"], ["%y", "%t0"]] =
        [("%x", 16), ("%t0", 24), ("%y", 32)] ∧
      Function.FrameSound framed
        (framed.slotsEach (.ofTaken "t" framed.vars) [["%x"], ["%y", "%t0"]])
        (framed.spillEach (.ofTaken "t" framed.vars) [["%x"], ["%y", "%t0"]]) := by
  have hparsed : framed.IsParsed := Or.inl ⟨_, Function.read_render (by decide)⟩
  have hslots : framed.slotsEach (.ofTaken "t" framed.vars) [["%x"], ["%y", "%t0"]] =
      [("%x", 16), ("%t0", 24), ("%y", 32)] := by decide
  obtain ⟨-, -, -, -, hsound⟩ := framed.frame_sound_iff hparsed (.ofTaken "t" framed.vars)
    [["%x"], ["%y", "%t0"]]
  refine ⟨hparsed, hslots, hsound.2 ?_⟩
  rw [hslots]
  decide

/-- A function with the largest frame, which also mentions the cell at the least offset. -/
def deep : Function :=
  .ofCode "deep" 0 [.assign (Item.slot 9223372036854775800) (.number 1),
    .assign (Item.slot (-9223372036854775808)) (.number 2), .assign (.var "x") (.number 1),
    .assign (.register "rax") (.var "x"), .ret]

/-- **A frame that is not what it should be**: the variable gets a cell at a negative offset, where
the function has a cell already, and the frame is not the smallest. -/
theorem deep_frame_unsound :
    deep.IsParsed ∧
      deep.slotsEach (.ofTaken "S" deep.vars) [["%x"]] = [("%x", -9223372036854775808)] ∧
      -9223372036854775808 ∈ deep.cells ∧
      inferLocals (deep.spillEach (.ofTaken "S" deep.vars) [["%x"]]).code <
        (deep.spillEach (.ofTaken "S" deep.vars) [["%x"]]).locals ∧
      ¬ Function.FrameSound deep (deep.slotsEach (.ofTaken "S" deep.vars) [["%x"]])
        (deep.spillEach (.ofTaken "S" deep.vars) [["%x"]]) := by
  have hparsed : deep.IsParsed := Or.inl ⟨_, Function.read_render (by decide)⟩
  have hslots : deep.slotsEach (.ofTaken "S" deep.vars) [["%x"]] =
      [("%x", -9223372036854775808)] := by decide
  refine ⟨hparsed, hslots, by decide, by decide, ?_⟩
  intro h
  have hnonneg := h.nonneg (-9223372036854775808) (by rw [hslots]; simp)
  exact absurd hnonneg (by decide)

end RegisterColouring
