/-
**Control flow and liveness after spilling.**

Control goes through the block of an instruction from its first step to its last, and from there to
the first steps of the blocks that stand for the instructions that control could go to before.
Hence names that spilling does not touch are live where they were, and a temporary is live only
inside its own block: from its load to the instruction, or from the instruction to its store.

Main definitions:

* `RegisterColouring.blockStart` — where a block starts in a list of blocks put together;
* `RegisterColouring.Spill.expanded`, `RegisterColouring.Spill.start` — code with replacements;
* `RegisterColouring.Spill.Planned` — what is known of the replacements in the code;
* `RegisterColouring.Spill.Neutral` — names that spilling does not touch.

Main results:

* `RegisterColouring.Spill.Planned.flow_inside`, `RegisterColouring.Spill.Planned.flow_last` — **the
  flow of control after spilling**;
* `RegisterColouring.Spill.Planned.liveAt_early`, `RegisterColouring.Spill.Planned.liveAfter_late` —
  **names that spilling does not touch are live where they were**;
* `RegisterColouring.Spill.Planned.liveAt_temporary` — temporaries are live only inside their block.
-/

import RegisterColouring.Proofs.LiveNames
import RegisterColouring.Proofs.SpillPlan

set_option autoImplicit false

namespace RegisterColouring

/-! ### Lists of blocks -/

section Blocks

variable {α : Type} {blocks : List (List α)} {block : List α} {i j k l : Nat}

/-- Where a block starts when all blocks are put together. -/
def blockStart (blocks : List (List α)) (i : Nat) : Nat := (blocks.take i).flatten.length

theorem blockStart_succ (hi : blocks[i]? = some block) :
    blockStart blocks (i + 1) = blockStart blocks i + block.length := by
  simp [blockStart, List.take_add_one, hi]

theorem blockStart_mono (hij : i ≤ j) : blockStart blocks i ≤ blockStart blocks j := by
  obtain ⟨d, rfl⟩ := Nat.exists_eq_add_of_le hij
  rw [blockStart, blockStart, List.take_add, List.flatten_append, List.length_append]
  omega

theorem getElem?_flatten_block (hi : blocks[i]? = some block) (hk : k < block.length) :
    blocks.flatten[blockStart blocks i + k]? = block[k]? := by
  induction blocks generalizing i with
  | nil => simp at hi
  | cons first rest ih =>
      rw [List.flatten_cons]
      cases i with
      | zero =>
          obtain rfl : first = block := by simpa using hi
          rw [blockStart, List.take_zero, List.flatten_nil, List.length_nil, Nat.zero_add,
            List.getElem?_append_left hk]
      | succ i =>
          have hstart : blockStart (first :: rest) (i + 1) = first.length + blockStart rest i := by
            simp [blockStart]
          rw [hstart, Nat.add_assoc, List.getElem?_append_right (by omega), Nat.add_sub_cancel_left]
          exact ih hi

/-- Every position is in a block. -/
theorem exists_block {p : Nat} (hp : p < blocks.flatten.length) :
    ∃ i block k, blocks[i]? = some block ∧ k < block.length ∧ p = blockStart blocks i + k := by
  induction blocks generalizing p with
  | nil => simp at hp
  | cons first rest ih =>
      rw [List.flatten_cons, List.length_append] at hp
      rcases Nat.lt_or_ge p first.length with hlt | hge
      · exact ⟨0, first, p, rfl, hlt, by simp [blockStart]⟩
      · obtain ⟨i, block, k, hi, hk, heq⟩ := @ih (p - first.length) (by omega)
        refine ⟨i + 1, block, k, hi, hk, ?_⟩
        have hstart : blockStart (first :: rest) (i + 1) = first.length + blockStart rest i := by
          simp [blockStart]
        omega

/-- A position is in only one block. -/
theorem block_unique {other : List α} (hi : blocks[i]? = some block) (hj : blocks[j]? = some other)
    (hk : k < block.length) (hl : l < other.length)
    (h : blockStart blocks i + k = blockStart blocks j + l) : i = j ∧ k = l := by
  have hnext : ∀ {a b : Nat} {piece : List α}, blocks[a]? = some piece → a < b →
      blockStart blocks a + piece.length ≤ blockStart blocks b := by
    intro a b piece ha hab
    rw [← blockStart_succ ha]
    exact blockStart_mono hab
  rcases Nat.lt_trichotomy i j with hlt | rfl | hgt
  · have := hnext hi hlt
    omega
  · exact ⟨rfl, by omega⟩
  · have := hnext hj hgt
    omega

/-- Members of blocks that differ in a key are in the same block if the keys are equal. -/
theorem block_of_nodup {β : Type} {key : α → β} {other : List α} {a b : α}
    (hnodup : (blocks.flatten.map key).Nodup) (hi : blocks[i]? = some block)
    (hj : blocks[j]? = some other) (ha : a ∈ block) (hb : b ∈ other) (heq : key a = key b) :
    i = j := by
  obtain ⟨k, hk⟩ := List.mem_iff_getElem?.1 ha
  obtain ⟨l, hl⟩ := List.mem_iff_getElem?.1 hb
  have hklt := (List.getElem?_eq_some_iff.1 hk).1
  have hllt := (List.getElem?_eq_some_iff.1 hl).1
  have hat := getElem?_flatten_block hi hklt
  have hbt := getElem?_flatten_block hj hllt
  have hlt := (List.getElem?_eq_some_iff.1 (hat.trans hk)).1
  have hposition : blockStart blocks i + k = blockStart blocks j + l := by
    refine (List.getElem?_inj (by rwa [List.length_map]) hnodup).1 ?_
    rw [List.getElem?_map, List.getElem?_map, hat, hbt, hk, hl, Option.map_some, Option.map_some,
      heq]
  exact (block_unique hi hj hklt hllt hposition).1

end Blocks

/-! ### Instructions that overwrite a variable -/

namespace Instruction

/-- An instruction that overwrites a variable overwrites nothing else, and control goes on to the
next instruction. -/
theorem of_variable_mem_kill {instruction : Instruction} {v : String}
    (h : Name.ofVariable v ∈ instruction.kill) :
    instruction.kill = [Name.ofVariable v] ∧ instruction.jump? = none ∧
      instruction.falls = true := by
  have hnames : ∀ item : Item, Name.ofVariable v ∈ item.names →
      item.names = [Name.ofVariable v] := by
    intro item hitem
    rw [Item.names, Item.mem_names.1 hitem]
    rfl
  cases instruction with
  | call callee arguments =>
      exact absurd (Register.callerSaved_subset h) (Name.ofVariable_not_mem_generalPurpose v)
  | assign target source =>
      simp only [kill, effect] at h ⊢
      split at h
      · simp at h
      · next htarget => exact ⟨by rw [if_neg htarget]; exact hnames target h, rfl, rfl⟩
  | memoryArith op target source =>
      simp only [kill, effect] at h ⊢
      split at h
      · simp at h
      · next htarget => exact ⟨by rw [if_neg htarget]; exact hnames target h, rfl, rfl⟩
  | stackArgument target _ => exact ⟨hnames target h, rfl, rfl⟩
  | arith _ target _ => exact ⟨hnames target h, rfl, rfl⟩
  | shift _ target _ => exact ⟨hnames target h, rfl, rfl⟩
  | compare target _ _ _ => exact ⟨hnames target h, rfl, rfl⟩
  | step target _ => exact ⟨hnames target h, rfl, rfl⟩
  | address target _ _ _ => exact ⟨hnames target h, rfl, rfl⟩
  | _ => simp [kill, effect] at h

section Rename

variable {instruction : Instruction} {image : String → String}

@[simp] theorem jump?_rename : (instruction.rename image).jump? = instruction.jump? := by
  cases instruction <;> rfl

@[simp] theorem label?_rename : (instruction.rename image).label? = instruction.label? := by
  cases instruction <;> rfl

@[simp] theorem falls_rename : (instruction.rename image).falls = instruction.falls := by
  cases instruction with
  | call callee arguments => cases callee <;> rfl
  | _ => rfl

end Rename

end Instruction

namespace Spill

/-! ### Code with replacements -/

/-- Code with replacements in each instruction. -/
def expanded (plan : List (List Replacement)) (code : List Instruction) : List Instruction :=
  (List.zipWith expand plan code).flatten

/-- Where the block of an instruction starts. -/
def start (plan : List (List Replacement)) (code : List Instruction) (i : Nat) : Nat :=
  blockStart (List.zipWith expand plan code) i

/-- The instruction at a position and the replacements in it. -/
structure Site (plan : List (List Replacement)) (code : List Instruction) (i : Nat)
    (replacements : List Replacement) (instruction : Instruction) : Prop where
  code_eq : code[i]? = some instruction
  plan_eq : plan[i]? = some replacements

namespace Site

variable {code : List Instruction} {plan : List (List Replacement)} {i j k l : Nat}
  {instruction other step : Instruction} {replacements others : List Replacement}
  (hsite : Site plan code i replacements instruction)

include hsite

theorem eq (h : Site plan code i others other) : replacements = others ∧ instruction = other := by
  constructor
  · exact Option.some_inj.1 (hsite.plan_eq.symm.trans h.plan_eq)
  · exact Option.some_inj.1 (hsite.code_eq.symm.trans h.code_eq)

theorem mem_flatten {r : Replacement} (hr : r ∈ replacements) : r ∈ plan.flatten :=
  List.mem_flatten_of_mem (List.mem_of_getElem? hsite.plan_eq) hr

theorem getElem?_blocks :
    (List.zipWith expand plan code)[i]? = some (expand replacements instruction) := by
  rw [List.getElem?_zipWith, hsite.code_eq, hsite.plan_eq]

/-- The steps of a block follow its start. -/
theorem getElem?_expanded (hk : (expand replacements instruction)[k]? = some step) :
    (expanded plan code)[start plan code i + k]? = some step := by
  rw [expanded, start, getElem?_flatten_block hsite.getElem?_blocks
    (List.getElem?_eq_some_iff.1 hk).1, hk]

theorem start_succ :
    start plan code (i + 1) = start plan code i + (expand replacements instruction).length :=
  blockStart_succ hsite.getElem?_blocks

theorem position_inj (hother : Site plan code j others other)
    (hk : k < (expand replacements instruction).length) (hl : l < (expand others other).length)
    (heq : start plan code i + k = start plan code j + l) : i = j ∧ k = l :=
  block_unique hsite.getElem?_blocks hother.getElem?_blocks hk hl heq

end Site

/-- **Every position is a step in the block of an instruction.** -/
theorem exists_site {code : List Instruction} {plan : List (List Replacement)} {p : Nat}
    {step : Instruction} (hp : (expanded plan code)[p]? = some step) :
    ∃ i replacements instruction k, Site plan code i replacements instruction ∧
      (expand replacements instruction)[k]? = some step ∧ p = start plan code i + k := by
  obtain ⟨i, block, k, hi, hk, rfl⟩ := exists_block (List.getElem?_eq_some_iff.1 hp).1
  rw [List.getElem?_zipWith] at hi
  split at hi
  · next replacements instruction hplan hcode =>
    obtain rfl := Option.some_inj.1 hi
    have hsite : Site plan code i replacements instruction := ⟨hcode, hplan⟩
    have hsome := List.getElem?_eq_getElem hk
    have hstep := hsite.getElem?_expanded hsome
    rw [start, hp, Option.some_inj] at hstep
    exact ⟨i, replacements, instruction, k, hsite, by rw [hsome, hstep], rfl⟩
  · simp at hi

/-- **What is known of the replacements in the code**: the temporaries of all instructions differ,
and none of them is a variable of the code. -/
structure Planned (targets : List Name) (code : List Instruction) (plan : List (List Replacement)) :
    Prop where
  length_eq : plan.length = code.length
  replaces : ∀ (i : Nat) (replacements : List Replacement) (instruction : Instruction),
    Site plan code i replacements instruction → Replaces targets replacements instruction
  nodup : (temporaries plan.flatten).Nodup
  fresh : ∀ t ∈ temporaries plan.flatten, ∀ instruction ∈ code, t ∉ instruction.vars

theorem planned_plan {targets : List Name} {state : State} {code : List Instruction}
    (hregular : ∀ instruction ∈ code, instruction.isRegular = true)
    (havoids : ∀ instruction ∈ code, ∀ v ∈ instruction.vars, state.names.Avoids v) :
    Planned targets code (plan targets state code) := by
  have hdrawn := drawn_plan targets state code
  refine ⟨length_plan targets state code, ?_, hdrawn.nodup, ?_⟩
  · intro i replacements instruction hsite
    exact replaces_plan hregular havoids hsite.code_eq hsite.plan_eq
  · intro t ht instruction hmem hvars
    exact hdrawn.fresh t ht (havoids instruction hmem t hvars)

theorem exists_of_storeCount_pos {replacements : List Replacement} {instruction : Instruction}
    (h : 0 < storeCount replacements instruction) :
    ∃ r ∈ replacements, r.victim ∈ instruction.kill := by
  obtain ⟨r, hr⟩ := List.exists_mem_of_length_pos h
  obtain ⟨hr, hkill⟩ := List.mem_filter.1 hr
  exact ⟨r, hr, by simpa using hkill⟩

theorem storeCount_pos {replacements : List Replacement} {instruction : Instruction}
    {r : Replacement} (hr : r ∈ replacements) (hkill : r.victim ∈ instruction.kill) :
    0 < storeCount replacements instruction :=
  List.length_pos_of_mem (List.mem_filter.2 ⟨hr, by simpa using hkill⟩)

/-- A store follows an instruction on temporaries that overwrites a spilled variable. -/
theorem exists_store {replacements : List Replacement} {instruction : Instruction}
    (h : 0 < storeCount replacements instruction) :
    ∃ r ∈ replacements, r.victim ∈ instruction.kill ∧
      (expand replacements instruction)[loadCount replacements instruction + 1]? =
        some r.store := by
  have hlength := length_expand replacements instruction
  have hsome := List.getElem?_eq_getElem
    (show loadCount replacements instruction + 1 < (expand replacements instruction).length by
      omega)
  rcases expand_cases hsome with ⟨hlt, -⟩ | ⟨heq, -⟩ | ⟨-, r, hr, hkill, hstep⟩
  · omega
  · omega
  · exact ⟨r, hr, hkill, hsome.trans (congrArg some hstep)⟩

/-- The variable of a store is the only name that its instruction overwrites. -/
theorem Replaces.of_victim_mem_kill {targets : List Name} {replacements : List Replacement}
    {instruction : Instruction} (h : Replaces targets replacements instruction) {r : Replacement}
    (hr : r ∈ replacements) (hkill : r.victim ∈ instruction.kill) :
    instruction.kill = [r.victim] ∧ instruction.jump? = none ∧ instruction.falls = true := by
  obtain ⟨-, v, -, hv⟩ := h.victim hr
  rw [hv] at hkill ⊢
  exact Instruction.of_variable_mem_kill hkill

/-- There is at most one store, as at most one variable is overwritten. -/
theorem Replaces.storeCount_le_one {targets : List Name} {replacements : List Replacement}
    {instruction : Instruction} (h : Replaces targets replacements instruction) :
    storeCount replacements instruction ≤ 1 := by
  rcases Nat.eq_zero_or_pos (storeCount replacements instruction) with hzero | hpos
  · omega
  · obtain ⟨r, hr, hkill⟩ := exists_of_storeCount_pos hpos
    have hkills := (h.of_victim_mem_kill hr hkill).1
    have hnodup : ((replacements.filter fun r => instruction.kill.contains r.victim).map
        Replacement.victim).Nodup := h.nodup_victims.sublist (List.filter_sublist.map _)
    have hsubset : ∀ name ∈ (replacements.filter fun r => instruction.kill.contains r.victim).map
        Replacement.victim, name ∈ instruction.kill := by
      intro name hname
      obtain ⟨s, hs, rfl⟩ := List.mem_map.1 hname
      simpa using (List.mem_filter.1 hs).2
    calc storeCount replacements instruction ≤ instruction.kill.length := by
          simpa [storeCount] using (hnodup.subperm hsubset).length_le
      _ = 1 := by rw [hkills, List.length_singleton]

namespace Planned

variable {targets : List Name} {code : List Instruction} {plan : List (List Replacement)}
  (h : Planned targets code plan) {i j k l p q : Nat} {instruction : Instruction}
  {replacements : List Replacement} {step : Instruction} {name : Name}

theorem exists_site_at (h : Planned targets code plan) (hi : code[i]? = some instruction) :
    ∃ replacements, Site plan code i replacements instruction := by
  have hlt := (List.getElem?_eq_some_iff.1 hi).1
  rw [← h.length_eq] at hlt
  exact ⟨plan[i], hi, List.getElem?_eq_getElem hlt⟩

theorem exists_site_of_mem (h : Planned targets code plan) {r : Replacement}
    (hr : r ∈ plan.flatten) :
    ∃ i replacements instruction, Site plan code i replacements instruction ∧ r ∈ replacements := by
  obtain ⟨replacements, hmem, hr⟩ := List.mem_flatten.1 hr
  obtain ⟨i, hplan⟩ := List.mem_iff_getElem?.1 hmem
  have hlt := (List.getElem?_eq_some_iff.1 hplan).1
  rw [h.length_eq] at hlt
  exact ⟨i, replacements, code[i], ⟨List.getElem?_eq_getElem hlt, hplan⟩, hr⟩

/-! ### The flow of control -/

section Flow

variable (hsite : Site plan code i replacements instruction)

include h hsite

/-- Control goes on from every step of a block but the last. -/
theorem falls_inside (hk : (expand replacements instruction)[k]? = some step)
    (hinside : k + 1 < (expand replacements instruction).length) :
    step.falls = true ∧ step.jump? = none := by
  rcases expand_cases hk with ⟨-, r, -, -, rfl⟩ | ⟨hcore, rfl⟩ | ⟨-, r, -, -, rfl⟩
  · exact ⟨rfl, rfl⟩
  · -- a store follows, so the instruction overwrites a variable
    have hstores : 0 < storeCount replacements instruction := by
      rw [length_expand] at hinside
      omega
    obtain ⟨r, hr, hkill⟩ := exists_of_storeCount_pos hstores
    obtain ⟨-, hjump, hfalls⟩ := (h.replaces i _ _ hsite).of_victim_mem_kill hr hkill
    exact ⟨by rw [Instruction.falls_rename, hfalls], by rw [Instruction.jump?_rename, hjump]⟩
  · exact ⟨rfl, rfl⟩

/-- **Inside a block control goes from each step to the next.** -/
theorem flow_inside (hinside : k + 1 < (expand replacements instruction).length) :
    Flow (expanded plan code) (start plan code i + k) q ↔ q = start plan code i + (k + 1) := by
  have hk := List.getElem?_eq_getElem (Nat.lt_of_succ_lt hinside)
  have hnext := hsite.getElem?_expanded (List.getElem?_eq_getElem hinside)
  obtain ⟨hfalls, hjump⟩ := h.falls_inside hsite hk hinside
  have hat := hsite.getElem?_expanded hk
  constructor
  · intro hflow
    cases hflow with
    | next _ _ _ => rfl
    | jump hat' hjump' _ =>
        rw [hat, Option.some_inj] at hat'
        rw [← hat', hjump] at hjump'
        simp at hjump'
  · rintro rfl
    exact Flow.next hat hfalls (List.getElem?_eq_some_iff.1 hnext).1

end Flow

include h in
/-- A label stays alone in its block. -/
theorem label_position {target : String} :
    (expanded plan code)[q]? = some (.label target) ↔
      ∃ j, q = start plan code j ∧ code[j]? = some (.label target) := by
  have hempty : ∀ {j : Nat} {replacements : List Replacement},
      Site plan code j replacements (.label target) → replacements = [] := by
    intro j replacements hsite
    have hvictims := (h.replaces j _ _ hsite).victims_eq
    exact List.map_eq_nil_iff.1 hvictims
  constructor
  · intro hq
    obtain ⟨j, replacements, instruction, k, hsite, hk, rfl⟩ := exists_site hq
    rcases expand_cases hk with ⟨-, r, -, -, hload⟩ | ⟨hcore, hlabel⟩ | ⟨-, r, -, -, hstore⟩
    · simp [Replacement.load] at hload
    · have hinstruction : instruction = .label target := by
        cases instruction <;> simp [Instruction.rename] at hlabel
        rw [hlabel]
      subst hinstruction
      refine ⟨j, ?_, hsite.code_eq⟩
      rw [hempty hsite] at hcore
      simpa [loadCount] using hcore
    · simp [Replacement.store] at hstore
  · rintro ⟨j, rfl, hj⟩
    obtain ⟨replacements, hsite⟩ := h.exists_site_at hj
    have hreplacements := hempty hsite
    subst hreplacements
    exact hsite.getElem?_expanded (k := 0) rfl

include h in
/-- After the last block the code ends. -/
theorem start_of_length_le (hi : code.length ≤ i) :
    start plan code i = (expanded plan code).length := by
  have hblocks : (List.zipWith expand plan code).length ≤ i := by
    rw [List.length_zipWith, h.length_eq, Nat.min_self]
    exact hi
  rw [start, blockStart, List.take_of_length_le hblocks, expanded]

include h in
theorem start_lt_iff :
    start plan code i < (expanded plan code).length ↔ i < code.length := by
  constructor
  · intro hstart
    by_contra hge
    have hlast := h.start_of_length_le (Nat.le_of_not_lt hge)
    omega
  · intro hi
    obtain ⟨replacements, hsite⟩ := h.exists_site_at (List.getElem?_eq_getElem hi)
    have hpos : 0 < (expand replacements code[i]).length := by
      rw [length_expand]
      omega
    have hat := hsite.getElem?_expanded (List.getElem?_eq_getElem hpos)
    exact (List.getElem?_eq_some_iff.1 hat).1

include h in
/-- Where control goes from the last step of a block is where it went from the instruction. -/
theorem last_step (hsite : Site plan code i replacements instruction)
    (hlast : k + 1 = (expand replacements instruction).length)
    (hk : (expand replacements instruction)[k]? = some step) :
    step.falls = instruction.falls ∧ step.jump? = instruction.jump? := by
  rcases expand_cases hk with ⟨hload, -⟩ | ⟨-, rfl⟩ | ⟨-, r, hr, hkill, rfl⟩
  · rw [length_expand] at hlast
    omega
  · exact ⟨Instruction.falls_rename, Instruction.jump?_rename⟩
  · obtain ⟨-, hjump, hfalls⟩ := (h.replaces i _ _ hsite).of_victim_mem_kill hr hkill
    rw [hfalls, hjump]
    exact ⟨rfl, rfl⟩

include h in
/-- **From the last step of a block control goes to the starts of blocks**, as it did between the
instructions. -/
theorem flow_last (hsite : Site plan code i replacements instruction)
    (hlast : k + 1 = (expand replacements instruction).length) :
    Flow (expanded plan code) (start plan code i + k) q ↔
      ∃ j, Flow code i j ∧ q = start plan code j := by
  have hk := List.getElem?_eq_getElem (show k < (expand replacements instruction).length by omega)
  have hat := hsite.getElem?_expanded hk
  have hnext : start plan code i + k + 1 = start plan code (i + 1) := by
    rw [hsite.start_succ]
    omega
  obtain ⟨hfalls, hjump⟩ := h.last_step hsite hlast hk
  constructor
  · intro hflow
    cases hflow with
    | next hat' hfalls' hlt =>
        rw [hat, Option.some_inj] at hat'
        rw [hnext] at hlt
        rw [← hat', hfalls] at hfalls'
        exact ⟨i + 1, Flow.next hsite.code_eq hfalls' (h.start_lt_iff.1 hlt), hnext⟩
    | jump hat' hjump' hq =>
        rw [hat, Option.some_inj] at hat'
        rw [← hat', hjump] at hjump'
        obtain ⟨j, rfl, hj⟩ := h.label_position.1 hq
        exact ⟨j, Flow.jump hsite.code_eq hjump' hj, rfl⟩
  · rintro ⟨j, hflow, rfl⟩
    cases hflow with
    | next hi hfalls' hlt =>
        rw [hsite.code_eq, Option.some_inj] at hi
        rw [← hi, ← hfalls] at hfalls'
        rw [← hnext]
        exact Flow.next hat hfalls' (by rw [hnext]; exact h.start_lt_iff.2 hlt)
    | jump hi hjump' hj =>
        rw [hsite.code_eq, Option.some_inj] at hi
        rw [← hi, ← hjump] at hjump'
        exact Flow.jump hat hjump' (h.label_position.2 ⟨j, rfl, hj⟩)

theorem liveAfter_inside (h : Planned targets code plan)
    (hsite : Site plan code i replacements instruction)
    (hinside : k + 1 < (expand replacements instruction).length) :
    LiveAfter (expanded plan code) name (start plan code i + k) ↔
      LiveAt (expanded plan code) name (start plan code i + (k + 1)) := by
  unfold LiveAfter
  simp only [h.flow_inside hsite hinside, exists_eq_left]

theorem liveAfter_last (h : Planned targets code plan)
    (hsite : Site plan code i replacements instruction)
    (hlast : k + 1 = (expand replacements instruction).length) :
    LiveAfter (expanded plan code) name (start plan code i + k) ↔
      ∃ j, Flow code i j ∧ LiveAt (expanded plan code) name (start plan code j) := by
  unfold LiveAfter
  simp only [h.flow_last hsite hlast]
  constructor
  · rintro ⟨q, ⟨j, hflow, rfl⟩, hlive⟩
    exact ⟨j, hflow, hlive⟩
  · rintro ⟨j, hflow, hlive⟩
    exact ⟨_, ⟨j, hflow, rfl⟩, hlive⟩

end Planned

/-! ### Names that spilling does not touch -/

/-- A name that is neither spilled nor a temporary. -/
def Neutral (plan : List (List Replacement)) (name : Name) : Prop :=
  ∀ r ∈ plan.flatten, r.victim ≠ name ∧ Name.ofVariable r.temporary ≠ name

namespace Planned

variable {targets : List Name} {code : List Instruction} {plan : List (List Replacement)}
  {i j k p : Nat} {instruction : Instruction} {replacements : List Replacement}
  {step : Instruction} {name : Name}

variable (h : Planned targets code plan) (hneutral : Neutral plan name)
  (hsite : Site plan code i replacements instruction)

include hneutral hsite

theorem neutral_of_site {r : Replacement} (hr : r ∈ replacements) :
    r.victim ≠ name ∧ Name.ofVariable r.temporary ≠ name :=
  hneutral r (hsite.mem_flatten hr)

/-- Loads and stores neither read nor overwrite it. -/
theorem liveAt_iff_liveAfter (hk : k < (expand replacements instruction).length)
    (hcore : k ≠ loadCount replacements instruction) :
    LiveAt (expanded plan code) name (start plan code i + k) ↔
      LiveAfter (expanded plan code) name (start plan code i + k) := by
  have hsome := List.getElem?_eq_getElem hk
  rw [liveAt_iff (hsite.getElem?_expanded hsome)]
  rcases expand_cases hsome with ⟨-, r, hr, -, hstep⟩ | ⟨heq, -⟩ | ⟨-, r, hr, -, hstep⟩
  · have hne := (neutral_of_site hneutral hsite hr).2
    simp [hstep, Ne.symm hne]
  · exact absurd heq hcore
  · have hne := (neutral_of_site hneutral hsite hr).2
    simp [hstep, Ne.symm hne]

include h

/-- The instruction on temporaries reads and overwrites the same names, as far as spilling does not
touch them. -/
theorem mem_core_of_neutral :
    (name ∈ (instruction.rename (image replacements)).gen ↔ name ∈ instruction.gen) ∧
      (name ∈ (instruction.rename (image replacements)).kill ↔ name ∈ instruction.kill) := by
  have hreplaces := h.replaces i _ _ hsite
  rw [hreplaces.mem_gen, hreplaces.mem_kill]
  constructor
  · constructor
    · rintro (⟨hname, -⟩ | ⟨r, hr, -, rfl⟩)
      · exact hname
      · exact absurd rfl (neutral_of_site hneutral hsite hr).2
    · intro hname
      exact Or.inl ⟨hname, fun r hr => (neutral_of_site hneutral hsite hr).1⟩
  · constructor
    · rintro (⟨hname, -⟩ | ⟨r, hr, -, rfl⟩)
      · exact hname
      · exact absurd rfl (neutral_of_site hneutral hsite hr).2
    · intro hname
      exact Or.inl ⟨hname, fun r hr => (neutral_of_site hneutral hsite hr).1⟩

theorem liveAt_loads (hk : k ≤ loadCount replacements instruction) :
    LiveAt (expanded plan code) name (start plan code i + k) ↔
      LiveAt (expanded plan code) name
        (start plan code i + loadCount replacements instruction) := by
  have hlength := length_expand replacements instruction
  obtain ⟨d, hd⟩ := Nat.exists_eq_add_of_le hk
  induction d generalizing k with
  | zero => rw [hd, Nat.add_zero]
  | succ d ih =>
      rw [liveAt_iff_liveAfter hneutral hsite (by omega) (by omega),
        h.liveAfter_inside hsite (by omega)]
      exact ih (by omega) (by omega)

theorem liveAfter_stores (hk : loadCount replacements instruction ≤ k)
    (hlt : k < (expand replacements instruction).length) :
    LiveAfter (expanded plan code) name (start plan code i + k) ↔
      ∃ j, Flow code i j ∧ LiveAt (expanded plan code) name (start plan code j) := by
  obtain ⟨d, hd⟩ := Nat.exists_eq_add_of_le (Nat.succ_le_of_lt hlt)
  induction d generalizing k with
  | zero => exact h.liveAfter_last hsite (by omega)
  | succ d ih =>
      rw [h.liveAfter_inside hsite (by omega),
        liveAt_iff_liveAfter hneutral hsite (by omega) (by omega)]
      exact ih (by omega) (by omega) (by omega)

/-- At the start of a block the equation of liveness is that of the instruction. -/
theorem liveAt_start_iff :
    LiveAt (expanded plan code) name (start plan code i) ↔
      name ∈ instruction.gen ∨ (name ∉ instruction.kill ∧
        ∃ j, Flow code i j ∧ LiveAt (expanded plan code) name (start plan code j)) := by
  have hlength := length_expand replacements instruction
  have hcore := hsite.getElem?_expanded (getElem?_expand_core replacements instruction)
  obtain ⟨hgen, hkill⟩ := h.mem_core_of_neutral hneutral hsite
  have hloads := h.liveAt_loads hneutral hsite (Nat.zero_le _)
  rw [Nat.add_zero] at hloads
  rw [hloads, liveAt_iff hcore, hgen, hkill,
    h.liveAfter_stores hneutral hsite (Nat.le_refl _) (by omega)]

omit hsite in
/-- What is live in the expanded code was live in the code. -/
theorem liveAt_of_expanded (hlive : LiveAt (expanded plan code) name p) :
    ∀ {i k : Nat} {replacements : List Replacement} {instruction : Instruction},
      Site plan code i replacements instruction →
      k < (expand replacements instruction).length → p = start plan code i + k →
      if k ≤ loadCount replacements instruction then LiveAt code name i
      else LiveAfter code name i := by
  -- on the path: as before the instruction up to the one on temporaries, then as after it
  induction hlive with
  | @read p step hp hgen =>
      rintro i k replacements instruction hsite hk rfl
      have hsome := List.getElem?_eq_getElem hk
      rw [hsite.getElem?_expanded hsome, Option.some_inj] at hp
      rcases expand_cases hsome with ⟨-, r, -, -, hstep⟩ | ⟨heq, hstep⟩ | ⟨-, r, hr, -, hstep⟩
      · rw [← hp, hstep] at hgen
        simp at hgen
      · rw [← hp, hstep, (h.mem_core_of_neutral hneutral hsite).1] at hgen
        rw [if_pos (by omega)]
        exact LiveAt.read hsite.code_eq hgen
      · rw [← hp, hstep, Replacement.gen_store, List.mem_singleton] at hgen
        exact absurd hgen.symm (neutral_of_site hneutral hsite hr).2
  | @keep p q step hp hkill hflow _ ih =>
      rintro i k replacements instruction hsite hk rfl
      have hlength := length_expand replacements instruction
      have hsome := List.getElem?_eq_getElem hk
      rw [hsite.getElem?_expanded hsome, Option.some_inj] at hp
      -- what holds after the step, whether it is the last of its block or not
      have hafter : if k < loadCount replacements instruction then LiveAt code name i
          else LiveAfter code name i := by
        rcases Nat.lt_or_ge (k + 1) (expand replacements instruction).length with hinside | hge
        · have hnext := ih hsite hinside ((h.flow_inside hsite hinside).1 hflow)
          simpa [Nat.succ_le_iff] using hnext
        · obtain ⟨j, hcode, rfl⟩ := (h.flow_last hsite (by omega)).1 hflow
          rw [if_neg (by omega)]
          obtain ⟨others, hother⟩ := h.exists_site_at (List.getElem?_eq_getElem hcode.lt)
          have hj := ih hother (k := 0) (by rw [length_expand]; omega) rfl
          rw [if_pos (Nat.zero_le _)] at hj
          exact ⟨j, hcode, hj⟩
      rcases Nat.lt_trichotomy k (loadCount replacements instruction) with hlt | heq | hgt
      · rw [if_pos hlt] at hafter
        rwa [if_pos (by omega)]
      · rw [if_neg (by omega)] at hafter
        rw [if_pos (by omega), liveAt_iff hsite.code_eq]
        subst heq
        have hcore := getElem?_expand_core replacements instruction
        rw [hsome, Option.some_inj] at hcore
        rw [← hp, hcore, (h.mem_core_of_neutral hneutral hsite).2] at hkill
        exact Or.inr ⟨hkill, hafter⟩
      · rw [if_neg (by omega)] at hafter
        rwa [if_neg (by omega)]

omit hsite in
/-- **A name that spilling does not touch is live at the start of a block exactly if it was live
before the instruction.** -/
theorem liveAt_start (hi : i < code.length) :
    LiveAt (expanded plan code) name (start plan code i) ↔ LiveAt code name i := by
  constructor
  · intro hlive
    obtain ⟨replacements, hsite⟩ := h.exists_site_at (List.getElem?_eq_getElem hi)
    have hcode := h.liveAt_of_expanded hneutral hlive hsite (k := 0)
      (by rw [length_expand]; omega) rfl
    rwa [if_pos (Nat.zero_le _)] at hcode
  · intro hlive
    -- a path between instructions is followed from block to block
    clear hi
    induction hlive with
    | read hi hgen =>
        obtain ⟨replacements, hsite⟩ := h.exists_site_at hi
        exact (h.liveAt_start_iff hneutral hsite).2 (Or.inl hgen)
    | keep hi hkill hflow _ ih =>
        obtain ⟨replacements, hsite⟩ := h.exists_site_at hi
        exact (h.liveAt_start_iff hneutral hsite).2 (Or.inr ⟨hkill, _, hflow, ih⟩)

theorem liveAfter_late (hk : loadCount replacements instruction ≤ k)
    (hlt : k < (expand replacements instruction).length) :
    LiveAfter (expanded plan code) name (start plan code i + k) ↔ LiveAfter code name i := by
  rw [h.liveAfter_stores hneutral hsite hk hlt]
  refine exists_congr fun j => and_congr_right fun hflow => ?_
  exact h.liveAt_start hneutral hflow.lt

theorem liveAt_early (hk : k ≤ loadCount replacements instruction) :
    LiveAt (expanded plan code) name (start plan code i + k) ↔ LiveAt code name i := by
  have hloads := h.liveAt_loads hneutral hsite (Nat.zero_le _)
  rw [h.liveAt_loads hneutral hsite hk, ← hloads, Nat.add_zero,
    h.liveAt_start hneutral (List.getElem?_eq_some_iff.1 hsite.code_eq).1]

theorem liveAfter_early (hk : k < loadCount replacements instruction) :
    LiveAfter (expanded plan code) name (start plan code i + k) ↔ LiveAt code name i := by
  rw [h.liveAfter_inside hsite (by rw [length_expand]; omega), h.liveAt_early hneutral hsite hk]

theorem liveAt_late (hk : loadCount replacements instruction < k)
    (hlt : k < (expand replacements instruction).length) :
    LiveAt (expanded plan code) name (start plan code i + k) ↔ LiveAfter code name i := by
  rw [liveAt_iff_liveAfter hneutral hsite hlt (by omega),
    h.liveAfter_late hneutral hsite (by omega) hlt]

/-- What is live around the instruction on temporaries was live around the instruction. -/
theorem liveAt_core :
    LiveAt (expanded plan code) name (start plan code i + loadCount replacements instruction) ↔
      LiveAt code name i :=
  h.liveAt_early hneutral hsite (Nat.le_refl _)

theorem liveAfter_core :
    LiveAfter (expanded plan code) name (start plan code i + loadCount replacements instruction) ↔
      LiveAfter code name i :=
  h.liveAfter_late hneutral hsite (Nat.le_refl _) (by rw [length_expand]; omega)

end Planned

/-! ### Temporaries -/

namespace Planned

variable {targets : List Name} {code : List Instruction} {plan : List (List Replacement)}
  {i j k l p : Nat} {instruction other : Instruction} {replacements others : List Replacement}
  {r s : Replacement} {step : Instruction}

/-- A temporary belongs to one replacement in one instruction. -/
theorem temporary_unique (h : Planned targets code plan)
    (hsite : Site plan code i replacements instruction) (hr : r ∈ replacements)
    (hother : Site plan code j others other) (hs : s ∈ others)
    (heq : r.temporary = s.temporary) : i = j ∧ r = s := by
  obtain rfl := block_of_nodup h.nodup hsite.plan_eq hother.plan_eq hr hs heq
  obtain ⟨rfl, rfl⟩ := hsite.eq hother
  exact ⟨rfl, (h.replaces i _ _ hsite).eq_of_temporary_eq hr hs heq⟩

variable (h : Planned targets code plan) (hsite : Site plan code i replacements instruction)
  (hr : r ∈ replacements)

include h hsite hr

/-- Only its instruction and its store read a temporary. -/
theorem temporary_read (hother : Site plan code j others other)
    (hk : (expand others other)[k]? = some step) (hgen : Name.ofVariable r.temporary ∈ step.gen) :
    j = i ∧ ((k = loadCount replacements instruction ∧ r.victim ∈ instruction.gen) ∨
      (loadCount replacements instruction < k ∧ r.victim ∈ instruction.kill)) := by
  rcases expand_cases hk with ⟨-, s, -, -, rfl⟩ | ⟨hcore, rfl⟩ | ⟨hlate, s, hs, hkill, rfl⟩
  · simp at hgen
  · rcases (h.replaces j _ _ hother).mem_gen.1 hgen with ⟨hgen, -⟩ | ⟨s, hs, hvictim, heq⟩
    · have hmem := hsite.mem_flatten hr
      exact absurd (Instruction.mem_vars_of_mem_gen_or_kill (h.replaces j _ _ hother).regular
        (Or.inl hgen)) (h.fresh _ (List.mem_map_of_mem hmem) other
          (List.mem_of_getElem? hother.code_eq))
    · obtain ⟨rfl, rfl⟩ := h.temporary_unique hsite hr hother hs (Name.ofVariable_inj.1 heq)
      obtain ⟨rfl, rfl⟩ := hsite.eq hother
      exact ⟨rfl, Or.inl ⟨hcore, hvictim⟩⟩
  · rw [Replacement.gen_store, List.mem_singleton, Name.ofVariable_inj] at hgen
    obtain ⟨rfl, rfl⟩ := h.temporary_unique hsite hr hother hs hgen
    obtain ⟨rfl, rfl⟩ := hsite.eq hother
    exact ⟨rfl, Or.inr ⟨hlate, hkill⟩⟩

/-- Only its load and its instruction overwrite a temporary. -/
theorem temporary_written (hother : Site plan code j others other)
    (hk : (expand others other)[k]? = some step) (hkill : Name.ofVariable r.temporary ∈ step.kill) :
    j = i ∧ ((k < loadCount replacements instruction ∧ r.victim ∈ instruction.gen) ∨
      (k = loadCount replacements instruction ∧ r.victim ∈ instruction.kill)) := by
  rcases expand_cases hk with ⟨hearly, s, hs, hgen, rfl⟩ | ⟨hcore, rfl⟩ | ⟨-, s, -, -, rfl⟩
  · rw [Replacement.kill_load, List.mem_singleton, Name.ofVariable_inj] at hkill
    obtain ⟨rfl, rfl⟩ := h.temporary_unique hsite hr hother hs hkill
    obtain ⟨rfl, rfl⟩ := hsite.eq hother
    exact ⟨rfl, Or.inl ⟨hearly, hgen⟩⟩
  · rcases (h.replaces j _ _ hother).mem_kill.1 hkill with ⟨hkill, -⟩ | ⟨s, hs, hvictim, heq⟩
    · have hmem := hsite.mem_flatten hr
      exact absurd (Instruction.mem_vars_of_mem_gen_or_kill (h.replaces j _ _ hother).regular
        (Or.inr hkill)) (h.fresh _ (List.mem_map_of_mem hmem) other
          (List.mem_of_getElem? hother.code_eq))
    · obtain ⟨rfl, rfl⟩ := h.temporary_unique hsite hr hother hs (Name.ofVariable_inj.1 heq)
      obtain ⟨rfl, rfl⟩ := hsite.eq hother
      exact ⟨rfl, Or.inr ⟨hcore, hvictim⟩⟩
  · simp at hkill

omit h hsite in
/-- A temporary that stands for a variable that is read has its load. -/
theorem exists_load (hgen : r.victim ∈ instruction.gen) :
    ∃ a < loadCount replacements instruction,
      (expand replacements instruction)[a]? = some r.load := by
  have hmem : r ∈ replacements.filter fun r => instruction.gen.contains r.victim :=
    List.mem_filter.2 ⟨hr, by simpa using hgen⟩
  obtain ⟨a, ha⟩ := List.mem_iff_getElem?.1 hmem
  have hlt := (List.getElem?_eq_some_iff.1 ha).1
  refine ⟨a, hlt, ?_⟩
  rw [expand, List.getElem?_append_left (by simpa using hlt), List.getElem?_map, ha,
    Option.map_some]

omit hr in
/-- Inside a block a step comes only from the step before it. -/
theorem flow_into (hother : Site plan code j others other)
    (hk : k < (expand others other).length) (hl : l < (expand replacements instruction).length)
    (hpos : 0 < l)
    (hflow : Flow (expanded plan code) (start plan code j + k) (start plan code i + l)) :
    j = i ∧ k + 1 = l := by
  rcases Nat.lt_or_ge (k + 1) (expand others other).length with hinside | hge
  · have hnext := (h.flow_inside hother hinside).1 hflow
    obtain ⟨rfl, rfl⟩ := hother.position_inj hsite hinside hl hnext.symm
    exact ⟨rfl, rfl⟩
  · obtain ⟨b, hcode, hstart⟩ := (h.flow_last hother (by omega)).1 hflow
    obtain ⟨more, hmore⟩ := h.exists_site_at (List.getElem?_eq_getElem hcode.lt)
    have hzero := hsite.position_inj hmore hl (by rw [length_expand]; omega) (l := 0) hstart
    omega

/-- **A temporary is live only inside its block**: after its load up to the instruction, if that
reads it, and after the instruction up to its store, if that overwrites it. -/
theorem liveAt_temporary
    (hlive : LiveAt (expanded plan code) (Name.ofVariable r.temporary) p) :
    ∃ k, p = start plan code i + k ∧ 0 < k ∧ k < (expand replacements instruction).length ∧
      (∀ a < loadCount replacements instruction,
        (expand replacements instruction)[a]? = some r.load → a < k) ∧
      ((k ≤ loadCount replacements instruction ∧ r.victim ∈ instruction.gen) ∨
        (loadCount replacements instruction < k ∧ r.victim ∈ instruction.kill)) := by
  -- the load of a temporary that is read comes before every place where it is live
  have hpos : ∀ k, (∀ a < loadCount replacements instruction,
      (expand replacements instruction)[a]? = some r.load → a < k) →
      ((k ≤ loadCount replacements instruction ∧ r.victim ∈ instruction.gen) ∨
        (loadCount replacements instruction < k ∧ r.victim ∈ instruction.kill)) → 0 < k := by
    rintro k hloads (⟨-, hgen⟩ | ⟨hlate, -⟩)
    · obtain ⟨a, ha, hload⟩ := exists_load hr hgen
      have := hloads a ha hload
      omega
    · omega
  induction hlive with
  | @read p step hp hgen =>
      obtain ⟨j, others, other, k, hother, hk, rfl⟩ := exists_site hp
      obtain ⟨rfl, hcases⟩ := h.temporary_read hsite hr hother hk hgen
      obtain ⟨rfl, rfl⟩ := hsite.eq hother
      have hloads : ∀ a < loadCount replacements instruction,
          (expand replacements instruction)[a]? = some r.load → a < k := by
        intro a ha _
        omega
      have hside : (k ≤ loadCount replacements instruction ∧ r.victim ∈ instruction.gen) ∨
          (loadCount replacements instruction < k ∧ r.victim ∈ instruction.kill) :=
        hcases.imp_left fun hcore => ⟨Nat.le_of_eq hcore.1, hcore.2⟩
      exact ⟨k, rfl, hpos k hloads hside, (List.getElem?_eq_some_iff.1 hk).1, hloads, hside⟩
  | @keep p q step hp hkill hflow _ ih =>
      obtain ⟨l, rfl, hl, hlt, hloads, hcases⟩ := ih
      obtain ⟨j, others, other, k, hother, hk, rfl⟩ := exists_site hp
      have hklt := (List.getElem?_eq_some_iff.1 hk).1
      obtain ⟨rfl, rfl⟩ := h.flow_into hsite hother hklt hlt hl hflow
      obtain ⟨rfl, rfl⟩ := hsite.eq hother
      have hloads' : ∀ a < loadCount replacements instruction,
          (expand replacements instruction)[a]? = some r.load → a < k := by
        intro a ha hload
        have hle := hloads a ha hload
        by_contra hge
        obtain rfl : a = k := by omega
        rw [hk, Option.some_inj] at hload
        rw [hload] at hkill
        simp at hkill
      have hside : (k ≤ loadCount replacements instruction ∧ r.victim ∈ instruction.gen) ∨
          (loadCount replacements instruction < k ∧ r.victim ∈ instruction.kill) := by
        rcases hcases with ⟨hearly, hgen⟩ | ⟨hlate, hvictim⟩
        · exact Or.inl ⟨by omega, hgen⟩
        · refine Or.inr ⟨?_, hvictim⟩
          by_contra hge
          obtain rfl : k = loadCount replacements instruction := by omega
          rw [getElem?_expand_core, Option.some_inj] at hk
          rw [← hk, (h.replaces j _ _ hsite).temporary_mem_kill hr] at hkill
          exact hkill hvictim
      exact ⟨k, rfl, hpos k hloads' hside, hklt, hloads', hside⟩

/-- A temporary that is live after a step is live at the next step of the same block. -/
theorem liveAfter_temporary
    (hlive : LiveAfter (expanded plan code) (Name.ofVariable r.temporary) p)
    (hp : (expanded plan code)[p]? = some step) :
    ∃ k, p = start plan code i + k ∧ (expand replacements instruction)[k]? = some step ∧
      k + 1 < (expand replacements instruction).length ∧
      ((k < loadCount replacements instruction ∧ r.victim ∈ instruction.gen) ∨
        (loadCount replacements instruction ≤ k ∧ r.victim ∈ instruction.kill)) := by
  obtain ⟨q, hflow, hq⟩ := hlive
  obtain ⟨l, rfl, hpos, hl, -, hcases⟩ := h.liveAt_temporary hsite hr hq
  obtain ⟨j, others, other, k, hother, hk, rfl⟩ := exists_site hp
  obtain ⟨rfl, rfl⟩ := h.flow_into hsite hother (List.getElem?_eq_some_iff.1 hk).1 hl hpos hflow
  obtain ⟨rfl, rfl⟩ := hsite.eq hother
  exact ⟨k, rfl, hk, hl, hcases.imp (fun hearly => ⟨by omega, hearly.2⟩)
    fun hlate => ⟨by omega, hlate.2⟩⟩

end Planned

end Spill

end RegisterColouring
