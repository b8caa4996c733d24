/-
**Cells for spilled variables.**

The frame of a function that is read holds every cell that its code mentions.  Spilling puts new
cells after the end of the frame, one for each spilled variable, in the order of first mention.  As
long as the offsets fit into a word, the cells of different variables differ, and differ from every
cell that the code mentions.

Main definitions:

* `RegisterColouring.Item.beyond?` — a cell after the end of a frame;
* `RegisterColouring.Spill.offset`, `RegisterColouring.Spill.offsets` — the offsets of the cells after
  the end of a frame;
* `RegisterColouring.Spill.Framed` — what is known of the cells given so far;
* `RegisterColouring.Function.spillSlots` — the cells of the spilled variables.

Main results:

* `RegisterColouring.frameSize_le_inferLocals`, `RegisterColouring.inferLocals_le` — the smallest
  frame for some code;
* `RegisterColouring.Item.beyond?_of_frameSize_le` — the code mentions no cell after the end of its
  frame;
* `RegisterColouring.Spill.nodup_offsets_iff` — when the offsets of cells differ;
* `RegisterColouring.Spill.lookup_slots` — every replacement uses the cell of its variable;
* `RegisterColouring.Function.mem_slots_iff` — the variables that are to be spilled have cells;
* `RegisterColouring.Spill.Framed.inj`, `RegisterColouring.Spill.Framed.beyond` — **the cells of
  spilled variables are new and differ**.
-/

import Mathlib.Algebra.Group.Nat.Defs
import Mathlib.Data.List.Perm.Subperm
import RegisterColouring.Proofs.SpillPlan

set_option autoImplicit false

namespace RegisterColouring

/-! ### Words -/

theorem toNat_toUInt64 {x : Int64} (h : 0 ≤ x.toInt) : (x.toUInt64.toNat : Int) = x.toInt := by
  have hx : x.toInt = x.toBitVec.toInt := rfl
  have hu : x.toUInt64.toNat = x.toBitVec.toNat := rfl
  have hlt := x.toBitVec.isLt
  rw [BitVec.toInt_eq_toNat_cond] at hx
  split at hx <;> omega

theorem toInt_toInt64 {x : UInt64} (h : x.toNat < 2 ^ 63) : x.toInt64.toInt = x.toNat := by
  have hx : x.toInt64.toInt = x.toBitVec.toInt := rfl
  have hu : x.toNat = x.toBitVec.toNat := rfl
  rw [BitVec.toInt_eq_toNat_cond] at hx
  split at hx <;> omega

/-! ### Frames -/

theorem le_max_frame (a b : UInt64) : a.toNat ≤ (max a b).toNat ∧ b.toNat ≤ (max a b).toNat := by
  by_cases hab : a ≤ b
  · have hmax : max a b = b := if_pos hab
    rw [hmax]
    exact ⟨UInt64.le_iff_toNat_le.1 hab, Nat.le_refl _⟩
  · have hmax : max a b = a := if_neg hab
    rw [hmax]
    rw [UInt64.le_iff_toNat_le] at hab
    omega

/-- **The smallest frame holds every cell that the code mentions.** -/
theorem frameSize_le_inferLocals {code : List Instruction} {instruction : Instruction} {item : Item}
    (hmem : instruction ∈ code) (hitem : item ∈ instruction.operands) :
    item.frameSize ≤ inferLocals code := by
  have hfold : ∀ (items : List Item) (start : UInt64),
      start.toNat ≤
          (items.foldl (fun locals item => max locals item.frameSize) start).toNat ∧
        ∀ item ∈ items, item.frameSize.toNat ≤
          (items.foldl (fun locals item => max locals item.frameSize) start).toNat := by
    intro items
    induction items with
    | nil => intro start; simp
    | cons first rest ih =>
        intro start
        obtain ⟨hstart, hrest⟩ := ih (max start first.frameSize)
        obtain ⟨hleft, hright⟩ := le_max_frame start first.frameSize
        rw [List.foldl_cons]
        refine ⟨by omega, ?_⟩
        intro item hitem
        rcases List.mem_cons.1 hitem with rfl | hitem
        · omega
        · exact hrest item hitem
  rw [UInt64.le_iff_toNat_le]
  exact (hfold _ 0).2 item (List.mem_flatMap.2 ⟨instruction, hmem, hitem⟩)

/-- The smallest frame is no larger than any that holds every cell the code mentions. -/
theorem inferLocals_le {code : List Instruction} {locals : UInt64}
    (h : ∀ instruction ∈ code, ∀ item ∈ instruction.operands, item.frameSize ≤ locals) :
    inferLocals code ≤ locals := by
  have hfold : ∀ (items : List Item) (start : UInt64), start ≤ locals →
      (∀ item ∈ items, item.frameSize ≤ locals) →
      items.foldl (fun locals item => max locals item.frameSize) start ≤ locals := by
    intro items
    induction items with
    | nil => exact fun start hstart _ => hstart
    | cons first rest ih =>
        intro start hstart hitems
        rw [List.forall_mem_cons] at hitems
        refine ih _ ?_ hitems.2
        change (if start ≤ first.frameSize then first.frameSize else start) ≤ locals
        split
        · exact hitems.1
        · exact hstart
  refine hfold _ 0 (UInt64.le_iff_toNat_le.2 (Nat.zero_le _)) ?_
  intro item hitem
  obtain ⟨instruction, hmem, hitem⟩ := List.mem_flatMap.1 hitem
  exact h instruction hmem item hitem

/-- A frame that just holds a cell ends after it. -/
theorem Item.toNat_frameSize_slot {offset : Int64} (h : 0 ≤ offset.toInt) :
    ((slot offset).frameSize.toNat : Int) = offset.toInt / 8 + 1 := by
  have hoffset : 0 ≤ offset := by simpa [Int64.le_iff_toInt_le] using h
  have hdiv : (offset / 8).toInt = offset.toInt / 8 := by
    rw [Int64.toInt_div_of_ne_right offset 8 (by decide), ← Int.tdiv_eq_ediv_of_nonneg h]
    rfl
  have hnat : ((offset / 8).toUInt64.toNat : Int) = offset.toInt / 8 := by
    rw [toNat_toUInt64 (by omega), hdiv]
  have hlt := offset.toInt_lt
  have hone : (1 : UInt64).toNat = 1 := rfl
  simp only [slot, frameSize, hoffset, and_self, if_true]
  rw [UInt64.toNat_add, hone, Nat.mod_eq_of_lt (by omega)]
  omega

/-- The offset of a cell after the end of a frame. -/
def Item.beyond? (locals : UInt64) : Item → Option Int64
  | memory (register name) offset =>
    if name = Register.stackPointer ∧ 8 * (locals.toNat : Int) ≤ offset.toInt then some offset
    else none
  | _ => none

theorem Item.beyond?_slot {locals : UInt64} {offset : Int64}
    (h : 8 * (locals.toNat : Int) ≤ offset.toInt) : (slot offset).beyond? locals = some offset := by
  simp only [slot, beyond?, true_and, if_pos h]

@[simp] theorem Item.beyond?_rename {locals : UInt64} {item : Item} {image : String → String} :
    (item.rename image).beyond? locals = item.beyond? locals := by
  cases item with
  | memory base offset => cases base <;> rfl
  | _ => rfl

/-- A cell that a frame holds is not after its end. -/
theorem Item.beyond?_of_frameSize_le {locals : UInt64} {item : Item}
    (h : item.frameSize ≤ locals) : item.beyond? locals = none := by
  cases item with
  | memory base offset =>
      cases base with
      | register name =>
          simp only [beyond?, ite_eq_right_iff, reduceCtorEq, imp_false, not_and, Int.not_le]
          rintro rfl
          by_cases hnonneg : 0 ≤ offset.toInt
          · have hsize := toNat_frameSize_slot hnonneg
            rw [slot] at hsize
            rw [UInt64.le_iff_toNat_le] at h
            omega
          · omega
      | _ => rfl
  | _ => rfl

/-! ### Offsets -/

namespace Spill

/-- The offset of the cell with a given number after the end of a frame. -/
def offset (base : UInt64) (k : Nat) : Int64 := (8 * (base + UInt64.ofNat k)).toInt64

/-- The offsets of some cells after the end of a frame, one after the other. -/
def offsets (base : UInt64) (n : Nat) : List Int64 := (List.range n).map (offset base)

theorem mem_offsets {base : UInt64} {n : Nat} {x : Int64} :
    x ∈ offsets base n ↔ ∃ k < n, x = offset base k := by
  simp [offsets, eq_comm]

theorem toNat_cell (base : UInt64) (k : Nat) :
    (8 * (base + UInt64.ofNat k)).toNat = 8 * (base.toNat + k) % 2 ^ 64 := by
  have height : (8 : UInt64).toNat = 8 := rfl
  rw [UInt64.toNat_mul, UInt64.toNat_add, UInt64.toNat_ofNat', height]
  omega

/-- A cell lies where its number says, as long as the offset fits into a word. -/
theorem toInt_offset {base : UInt64} {k : Nat} (h : base.toNat + k < 2 ^ 60) :
    (offset base k).toInt = 8 * ((base.toNat + k : Nat) : Int) := by
  have hcell := toNat_cell base k
  rw [Nat.mod_eq_of_lt (by omega)] at hcell
  rw [offset, toInt_toInt64 (by omega), hcell]
  omega

/-- A frame that just holds such a cell ends after it. -/
theorem toNat_frameSize_offset {base : UInt64} {k : Nat} (h : base.toNat + k < 2 ^ 60) :
    (Item.slot (offset base k)).frameSize.toNat = base.toNat + k + 1 := by
  have hoffset := toInt_offset h
  have hsize := Item.toNat_frameSize_slot (show 0 ≤ (offset base k).toInt by omega)
  omega

/-- Two cells after the end of a frame have the same offset only if as many cells as there are
offsets lie between them. -/
theorem offset_eq_iff {base : UInt64} {k l : Nat} :
    offset base k = offset base l ↔ k % 2 ^ 61 = l % 2 ^ 61 := by
  have hword : ∀ a b : UInt64, a.toInt64 = b.toInt64 ↔ a.toNat = b.toNat := by
    intro a b
    rw [UInt64.toNat_inj]
    constructor
    · intro h
      simpa using congrArg Int64.toUInt64 h
    · rintro rfl
      rfl
  rw [offset, offset, hword, toNat_cell, toNat_cell]
  omega

/-- **When the offsets of the cells differ**: there are `2 ^ 61` of them at a distance of eight. -/
theorem nodup_offsets_iff {base : UInt64} {n : Nat} : (offsets base n).Nodup ↔ n ≤ 2 ^ 61 := by
  rw [offsets, List.nodup_map_iff_inj_on List.nodup_range]
  simp only [List.mem_range, offset_eq_iff]
  constructor
  · intro hinj
    by_contra hlt
    have hzero := hinj 0 (by omega) (2 ^ 61) (by omega) (by decide)
    omega
  · intro hle k hk l hl heq
    omega

theorem offsets_append (base : UInt64) (m n : Nat) :
    offsets base (m + n) = offsets base m ++ offsets (base + UInt64.ofNat m) n := by
  rw [offsets, offsets, offsets, List.range_add, List.map_append, List.map_map]
  refine congrArg _ (List.map_congr_left fun k _ => ?_)
  rw [Function.comp_apply, offset, offset, UInt64.ofNat_add, UInt64.add_assoc]

/-! ### The cells given so far -/

variable {base : UInt64} {targets : List Name} {vars : List String} {state : State} {victim : Name}

/-- **What is known of the cells given so far**: they follow a frame of a given size one after the
other, and belong to different variables that are to be spilled. -/
structure Framed (base : UInt64) (targets : List Name) (vars : List String) (state : State) :
    Prop where
  locals_eq : state.locals = base + UInt64.ofNat state.slots.length
  nodup : (state.slots.map Prod.fst).Nodup
  target : ∀ name ∈ state.slots.map Prod.fst, name ∈ targets
  variable_name : ∀ name ∈ state.slots.map Prod.fst, ∃ v ∈ vars, name = Name.ofVariable v
  offset_eq : ∀ (k : Nat) (name : Name) (offset : Int64), state.slots[k]? = some (name, offset) →
    offset = (8 * (base + UInt64.ofNat k)).toInt64

theorem framed_start (locals : UInt64) (names : NameSupply) :
    Framed locals targets vars ⟨locals, [], names, []⟩ :=
  ⟨by simp, by simp, by simp, by simp, by simp⟩

theorem Framed.slot (h : Framed base targets vars state) (htarget : victim ∈ targets)
    (hvariable : ∃ v ∈ vars, victim = Name.ofVariable v) :
    Framed base targets vars (state.slot victim).2 := by
  unfold State.slot
  split
  · exact h
  · next hnone =>
    have hnew : victim ∉ state.slots.map Prod.fst := by
      intro hmem
      obtain ⟨entry, hentry, rfl⟩ := List.mem_map.1 hmem
      exact absurd rfl (bne_iff_ne.1 (List.lookup_eq_none_iff.1 hnone entry hentry))
    refine ⟨?_, ?_, ?_, ?_, ?_⟩
    · dsimp only
      rw [h.locals_eq, List.length_append, List.length_singleton, UInt64.ofNat_add,
        UInt64.add_assoc]
      rfl
    · dsimp only
      rw [List.map_append, List.nodup_append]
      refine ⟨h.nodup, by simp, ?_⟩
      rintro name hname other hother rfl
      obtain rfl : name = victim := by simpa using hother
      exact hnew hname
    · intro name hname
      rw [List.map_append, List.mem_append] at hname
      rcases hname with hname | hname
      · exact h.target name hname
      · rw [List.map_singleton, List.mem_singleton] at hname
        rwa [hname]
    · intro name hname
      rw [List.map_append, List.mem_append] at hname
      rcases hname with hname | hname
      · exact h.variable_name name hname
      · rw [List.map_singleton, List.mem_singleton] at hname
        rwa [hname]
    · intro k name offset hk
      dsimp only at hk
      rcases Nat.lt_or_ge k state.slots.length with hlt | hge
      · rw [List.getElem?_append_left hlt] at hk
        exact h.offset_eq k name offset hk
      -- the new cell follows the last one
      · rw [List.getElem?_append_right hge] at hk
        obtain ⟨hzero, hentry⟩ := List.getElem?_eq_some_iff.1 hk
        have hk : k = state.slots.length := by
          rw [List.length_singleton] at hzero
          omega
        subst hk
        simp only [Nat.sub_self, List.getElem_cons_zero, Prod.mk.injEq] at hentry
        rw [← hentry.2, h.locals_eq]

/-- A cell that has been given stays with its variable. -/
def Keeps (slots slots' : List (Name × Int64)) : Prop :=
  ∀ name offset, slots.lookup name = some offset → slots'.lookup name = some offset

theorem slot_spec (state : State) (victim : Name) :
    (state.slot victim).2.slots.lookup victim = some (state.slot victim).1 ∧
      Keeps state.slots (state.slot victim).2.slots := by
  unfold State.slot
  split
  · next offset hoffset => exact ⟨hoffset, fun _ _ h => h⟩
  · next hnone =>
    constructor
    · rw [List.lookup_append, hnone]
      simp
    · intro name offset h
      rw [List.lookup_append, h]
      rfl

theorem replace_spec (state : State) (victim : Name) :
    (state.replace victim).2.slots.lookup victim = some (state.replace victim).1.offset ∧
      Keeps state.slots (state.replace victim).2.slots :=
  slot_spec state victim

theorem replaceAll_spec (state : State) (names : List Name) :
    (∀ r ∈ (state.replaceAll names).1,
      (state.replaceAll names).2.slots.lookup r.victim = some r.offset) ∧
      Keeps state.slots (state.replaceAll names).2.slots := by
  induction names generalizing state with
  | nil => exact ⟨by simp [State.replaceAll], fun _ _ h => h⟩
  | cons victim rest ih =>
      obtain ⟨hfirst, hkeeps⟩ := replace_spec state victim
      obtain ⟨hrest, hkeeps'⟩ := ih (state.replace victim).2
      refine ⟨?_, fun name offset h => hkeeps' name offset (hkeeps name offset h)⟩
      intro r hr
      rcases List.mem_cons.1 hr with rfl | hr
      · exact hkeeps' _ _ hfirst
      · exact hrest r hr

/-- **Every replacement uses the cell of its variable.** -/
theorem lookup_slots (targets : List Name) (state : State) (list : List Instruction) :
    (∀ r ∈ (plan targets state list).flatten,
      (code targets state list).2.slots.lookup r.victim = some r.offset) ∧
      Keeps state.slots (code targets state list).2.slots := by
  induction list generalizing state with
  | nil => exact ⟨by simp [plan], fun _ _ h => h⟩
  | cons instruction rest ih =>
      obtain ⟨hfirst, hkeeps⟩ := replaceAll_spec state (victims targets instruction)
      obtain ⟨hrest, hkeeps'⟩ := ih (state.replaceAll (victims targets instruction)).2
      refine ⟨?_, fun name offset h => hkeeps' name offset (hkeeps name offset h)⟩
      intro r hr
      rw [plan, List.flatten_cons, List.mem_append] at hr
      rcases hr with hr | hr
      · exact hkeeps' _ _ (hfirst r hr)
      · exact hrest r hr

theorem Framed.replaceAll (h : Framed base targets vars state) {names : List Name}
    (hnames : ∀ name ∈ names, name ∈ targets ∧ ∃ v ∈ vars, name = Name.ofVariable v) :
    Framed base targets vars (state.replaceAll names).2 := by
  induction names generalizing state with
  | nil => exact h
  | cons victim rest ih =>
      obtain ⟨htarget, hvariable⟩ := hnames victim (List.mem_cons_self ..)
      have hslot := h.slot htarget hvariable
      have hreplace : Framed base targets vars (state.replace victim).2 :=
        ⟨hslot.locals_eq, hslot.nodup, hslot.target, hslot.variable_name, hslot.offset_eq⟩
      exact ih hreplace fun name hname => hnames name (List.mem_cons_of_mem _ hname)

theorem Framed.code (h : Framed base targets vars state) {list : List Instruction}
    (hvars : ∀ instruction ∈ list, ∀ v ∈ instruction.vars, v ∈ vars) :
    Framed base targets vars (code targets state list).2 := by
  induction list generalizing state with
  | nil => exact h
  | cons instruction rest ih =>
      refine ih (h.replaceAll ?_) fun other hother => hvars other (List.mem_cons_of_mem _ hother)
      intro name hname
      obtain ⟨htarget, v, hv, rfl⟩ := mem_victims.1 hname
      exact ⟨htarget, v, hvars instruction (List.mem_cons_self ..) v hv, rfl⟩

namespace Framed

variable (h : Framed base targets vars state) (hroom : base.toNat + targets.length ≤ 2 ^ 60)

include h hroom

/-- The offset of a cell, when all offsets fit into a word. -/
theorem toInt_offset {name : Name} {offset : Int64}
    (hlookup : state.slots.lookup name = some offset) :
    ∃ k : Nat, state.slots[k]? = some (name, offset) ∧
      offset.toInt = 8 * ((base.toNat + k : Nat) : Int) := by
  obtain ⟨before, after, hslots, -⟩ := List.lookup_eq_some_iff.1 hlookup
  have hk : state.slots[before.length]? = some (name, offset) := by
    rw [hslots, List.getElem?_append_right (Nat.le_refl _), Nat.sub_self, List.getElem?_cons_zero]
  have hcount : state.slots.length ≤ targets.length := by
    rw [← List.length_map Prod.fst]
    exact (h.nodup.subperm h.target).length_le
  have hlt := (List.getElem?_eq_some_iff.1 hk).1
  refine ⟨before.length, hk, ?_⟩
  rw [h.offset_eq _ _ _ hk]
  exact Spill.toInt_offset (by omega)

/-- **Different variables have different cells.** -/
theorem inj {name other : Name} {offset : Int64} (hname : state.slots.lookup name = some offset)
    (hother : state.slots.lookup other = some offset) : name = other := by
  obtain ⟨k, hk, hoffset⟩ := h.toInt_offset hroom hname
  obtain ⟨l, hl, hoffset'⟩ := h.toInt_offset hroom hother
  obtain rfl : k = l := by omega
  rw [hk, Option.some_inj, Prod.mk.injEq] at hl
  exact hl.1

/-- **The cells are after the end of the frame.** -/
theorem beyond {name : Name} {offset : Int64} (hname : state.slots.lookup name = some offset) :
    8 * (base.toNat : Int) ≤ offset.toInt := by
  obtain ⟨k, -, hoffset⟩ := h.toInt_offset hroom hname
  omega

end Framed

end Spill

/-- **The cells of the spilled variables of a function.** -/
def Function.spillSlots (function : Function) (targets : List Name) (names : NameSupply) :
    List (Name × Int64) :=
  (Spill.code targets ⟨function.locals, [], names, []⟩ function.code).2.slots

theorem Function.framed_spill (function : Function) (targets : List Name) (names : NameSupply) :
    Spill.Framed function.locals targets function.vars
      (Spill.code targets ⟨function.locals, [], names, []⟩ function.code).2 := by
  refine (Spill.framed_start function.locals names).code ?_
  intro instruction hmem v hv
  exact Function.mem_vars.2 ⟨instruction, hmem, hv⟩

/-- The frame grows by the cells that are given. -/
theorem Function.locals_spill_slots (function : Function) (targets : List Name)
    (names : NameSupply) :
    (function.spill targets names).function.locals =
      function.locals + UInt64.ofNat (function.spillSlots targets names).length :=
  (function.framed_spill targets names).locals_eq

/-- The cells follow the frame one after the other. -/
theorem Function.map_snd_slots (function : Function) (targets : List Name) (names : NameSupply) :
    (function.spillSlots targets names).map Prod.snd =
      Spill.offsets function.locals (function.spillSlots targets names).length := by
  refine List.ext_getElem (by simp [Spill.offsets]) ?_
  intro k hk _
  rw [List.length_map] at hk
  simp only [Spill.offsets, List.getElem_map, List.getElem_range]
  exact (function.framed_spill targets names).offset_eq k _ _ (List.getElem?_eq_getElem hk)

/-- Every replacement uses a cell that is given. -/
theorem Function.mem_slots_of_mem_plan {function : Function} {targets : List Name}
    {names : NameSupply} {r : Spill.Replacement}
    (hr : r ∈ (Spill.plan targets ⟨function.locals, [], names, []⟩ function.code).flatten) :
    (r.victim, r.offset) ∈ function.spillSlots targets names := by
  have hlookup := (Spill.lookup_slots targets _ function.code).1 r hr
  exact (lookup_eq_some_iff_mem (function.framed_spill targets names).nodup).1 hlookup

theorem Function.nodup_slots (function : Function) (targets : List Name) (names : NameSupply) :
    ((function.spillSlots targets names).map Prod.fst).Nodup :=
  (function.framed_spill targets names).nodup

/-- **The variables that are to be spilled have cells**, and no other names do. -/
theorem Function.mem_slots_iff (function : Function) (targets : List Name) (names : NameSupply)
    {name : Name} :
    name ∈ (function.spillSlots targets names).map Prod.fst ↔
      name ∈ targets ∧ ∃ v ∈ function.vars, name = Name.ofVariable v := by
  have hframed := function.framed_spill targets names
  constructor
  · intro hname
    exact ⟨hframed.target name hname, hframed.variable_name name hname⟩
  · rintro ⟨htarget, v, hv, rfl⟩
    obtain ⟨instruction, hmem, hv⟩ := Function.mem_vars.1 hv
    obtain ⟨r, hr, hvictim⟩ := Spill.exists_mem_plan hmem hv htarget
      ⟨function.locals, [], names, []⟩
    rw [← hvictim]
    exact List.mem_map_of_mem (Function.mem_slots_of_mem_plan hr)

end RegisterColouring
