/-
**What spilling replaces.**

Spilling decides for each instruction which of its variables to replace, and by which temporaries;
the instruction then becomes a block of loads, the instruction on temporaries, and stores.  The
temporaries of all instructions differ, and differ from every variable.  The instruction on
temporaries reads and writes what it did before, with temporaries for the variables that are
spilled.

Main definitions:

* `RegisterColouring.Spill.plan` — the replacements in each instruction;
* `RegisterColouring.Spill.Replaces` — what is known of the replacements in one instruction.

Main results:

* `RegisterColouring.Spill.code_eq` — spilled code is a list of blocks, put together;
* `RegisterColouring.Spill.drawn_plan`, `RegisterColouring.Spill.replaces_plan` — what is replaced;
* `RegisterColouring.Spill.Replaces.mem_gen`, `RegisterColouring.Spill.Replaces.temporary_mem_gen`,
  `RegisterColouring.Spill.Replaces.mem_kill`, `RegisterColouring.Spill.Replaces.temporary_mem_kill`
  — **what the instruction on temporaries reads and writes**.
-/

import RegisterColouring.Proofs.FreshNames
import RegisterColouring.Proofs.Operands
import RegisterColouring.Spill.Basic

set_option autoImplicit false

namespace RegisterColouring

namespace Spill

open NameSupply (Drawn)

variable {targets : List Name} {state : State} {instruction : Instruction} {v : String}

/-! ### The plan -/

/-- **The replacements in each instruction.** -/
def plan (targets : List Name) : State → List Instruction → List (List Replacement)
  | _, [] => []
  | state, instruction :: rest =>
    let (replacements, state) := state.replaceAll (victims targets instruction)
    replacements :: plan targets state rest

/-- Spilled code is a list of blocks, put together. -/
theorem code_eq (targets : List Name) (state : State) (list : List Instruction) :
    (code targets state list).1 = (List.zipWith expand (plan targets state list) list).flatten := by
  induction list generalizing state with
  | nil => rfl
  | cons instruction rest ih =>
      rw [code, plan, List.zipWith_cons_cons, List.flatten_cons, ← ih]

theorem length_plan (targets : List Name) (state : State) (list : List Instruction) :
    (plan targets state list).length = list.length := by
  induction list generalizing state with
  | nil => rfl
  | cons instruction rest ih => rw [plan, List.length_cons, List.length_cons, ih]

@[simp] theorem names_slot (victim : Name) : (state.slot victim).2.names = state.names := by
  unfold State.slot
  split <;> rfl

@[simp] theorem temporaries_slot (victim : Name) :
    (state.slot victim).2.temporaries = state.temporaries := by
  unfold State.slot
  split <;> rfl

/-- The temporaries of some replacements. -/
def temporaries (replacements : List Replacement) : List String :=
  replacements.map Replacement.temporary

theorem drawn_replace (state : State) (victim : Name) :
    Drawn state.names (state.replace victim).2.names [(state.replace victim).1.temporary] := by
  have hsingle := Drawn.single state.names
  simpa [State.replace] using hsingle

theorem victims_replaceAll (state : State) (names : List Name) :
    (state.replaceAll names).1.map Replacement.victim = names := by
  induction names generalizing state with
  | nil => rfl
  | cons victim rest ih =>
      rw [State.replaceAll, List.map_cons, ih]
      rfl

theorem drawn_replaceAll (state : State) (names : List Name) :
    Drawn state.names (state.replaceAll names).2.names
      (temporaries (state.replaceAll names).1) := by
  induction names generalizing state with
  | nil => exact Drawn.nil _
  | cons victim rest ih => exact (drawn_replace state victim).append (ih _)

theorem temporaries_replaceAll (state : State) (names : List Name) :
    (state.replaceAll names).2.temporaries =
      state.temporaries ++ (temporaries (state.replaceAll names).1).map Name.ofVariable := by
  induction names generalizing state with
  | nil => simp [State.replaceAll, temporaries]
  | cons victim rest ih =>
      rw [State.replaceAll, ih]
      simp [State.replace, temporaries]

/-- **The temporaries of all instructions are drawn from the supply.** -/
theorem drawn_plan (targets : List Name) (state : State) (list : List Instruction) :
    Drawn state.names (code targets state list).2.names
      (temporaries (plan targets state list).flatten) := by
  induction list generalizing state with
  | nil => exact Drawn.nil _
  | cons instruction rest ih =>
      rw [plan, List.flatten_cons, temporaries, List.map_append]
      exact (drawn_replaceAll state (victims targets instruction)).append (ih _)

theorem temporaries_code (targets : List Name) (state : State) (list : List Instruction) :
    (code targets state list).2.temporaries = state.temporaries ++
      (temporaries (plan targets state list).flatten).map Name.ofVariable := by
  induction list generalizing state with
  | nil => simp [code, plan, temporaries]
  | cons instruction rest ih =>
      rw [code, plan, ih, temporaries_replaceAll]
      simp [temporaries]

theorem victims_plan (targets : List Name) (state : State) (list : List Instruction) {i : Nat}
    {replacements : List Replacement} (hi : list[i]? = some instruction)
    (hplan : (plan targets state list)[i]? = some replacements) :
    replacements.map Replacement.victim = victims targets instruction := by
  induction list generalizing state i with
  | nil => simp at hi
  | cons first rest ih =>
      rw [plan] at hplan
      cases i with
      | zero =>
          simp only [List.getElem?_cons_zero, Option.some.injEq] at hi hplan
          rw [← hi, ← hplan, victims_replaceAll]
      | succ i => exact ih _ hi hplan

theorem mem_victims {name : Name} :
    name ∈ victims targets instruction ↔
      name ∈ targets ∧ ∃ v ∈ instruction.vars, name = Name.ofVariable v := by
  simp only [victims, List.mem_eraseDups, List.mem_filter, List.mem_map, List.contains_eq_mem,
    decide_eq_true_eq]
  constructor
  · rintro ⟨⟨v, hv, rfl⟩, htarget⟩
    exact ⟨htarget, v, hv, rfl⟩
  · rintro ⟨htarget, v, hv, rfl⟩
    exact ⟨⟨v, hv, rfl⟩, htarget⟩

/-- Every variable that is to be spilled is replaced somewhere. -/
theorem exists_mem_plan {list : List Instruction} (hmem : instruction ∈ list)
    (hv : v ∈ instruction.vars) (htarget : Name.ofVariable v ∈ targets) (state : State) :
    ∃ r ∈ (plan targets state list).flatten, r.victim = Name.ofVariable v := by
  induction list generalizing state with
  | nil => simp at hmem
  | cons first rest ih =>
      rw [plan, List.flatten_cons]
      rcases List.mem_cons.1 hmem with rfl | hmem
      · have hvictim : Name.ofVariable v ∈
            (state.replaceAll (victims targets instruction)).1.map Replacement.victim := by
          rw [victims_replaceAll, mem_victims]
          exact ⟨htarget, v, hv, rfl⟩
        obtain ⟨r, hr, hvictim⟩ := List.mem_map.1 hvictim
        exact ⟨r, List.mem_append_left _ hr, hvictim⟩
      · obtain ⟨r, hr, hvictim⟩ := ih hmem _
        exact ⟨r, List.mem_append_right _ hr, hvictim⟩

/-! ### One instruction -/

section Image

variable {replacements : List Replacement}

theorem image_of_mem (hnodup : (replacements.map Replacement.victim).Nodup) {r : Replacement}
    (hr : r ∈ replacements) (hv : r.victim = Name.ofVariable v) :
    image replacements v = r.temporary := by
  unfold image
  split
  · next s hs =>
    have hvictim : s.victim = r.victim := by
      rw [hv]
      simpa using List.find?_some hs
    rw [List.inj_on_of_nodup_map hnodup (List.mem_of_find?_eq_some hs) hr hvictim]
  · next hnone =>
    exact absurd (beq_iff_eq.2 hv) (by simpa using List.find?_eq_none.1 hnone r hr)

theorem image_eq_self (hv : ∀ r ∈ replacements, r.victim ≠ Name.ofVariable v) :
    image replacements v = v := by
  unfold image
  split
  · next s hs =>
    exact absurd (by simpa using List.find?_some hs) (hv s (List.mem_of_find?_eq_some hs))
  · rfl

/-- A variable is replaced or kept. -/
theorem image_cases (hnodup : (replacements.map Replacement.victim).Nodup) (v : String) :
    (∃ r ∈ replacements, r.victim = Name.ofVariable v ∧ image replacements v = r.temporary) ∨
      (∀ r ∈ replacements, r.victim ≠ Name.ofVariable v) ∧ image replacements v = v := by
  by_cases hv : ∃ r ∈ replacements, r.victim = Name.ofVariable v
  · obtain ⟨r, hr, hvictim⟩ := hv
    exact Or.inl ⟨r, hr, hvictim, image_of_mem hnodup hr hvictim⟩
  · have hnone : ∀ r ∈ replacements, r.victim ≠ Name.ofVariable v :=
      fun r hr hvictim => hv ⟨r, hr, hvictim⟩
    exact Or.inr ⟨hnone, image_eq_self hnone⟩

end Image

/-- **What is known of the replacements in one instruction**: all its variables that are to be
spilled are replaced, by different temporaries that are none of its variables. -/
structure Replaces (targets : List Name) (replacements : List Replacement)
    (instruction : Instruction) : Prop where
  regular : instruction.isRegular = true
  victims_eq : replacements.map Replacement.victim = victims targets instruction
  nodup : (temporaries replacements).Nodup
  fresh : ∀ t ∈ temporaries replacements, t ∉ instruction.vars

/-- What the plan says of each instruction. -/
theorem replaces_plan {list : List Instruction}
    (hregular : ∀ instruction ∈ list, instruction.isRegular = true)
    (havoids : ∀ instruction ∈ list, ∀ v ∈ instruction.vars, state.names.Avoids v) {i : Nat}
    {replacements : List Replacement} (hi : list[i]? = some instruction)
    (hplan : (plan targets state list)[i]? = some replacements) :
    Replaces targets replacements instruction := by
  have hmem := List.mem_of_getElem? hi
  have hdrawn := drawn_plan targets state list
  have hsublist : (temporaries replacements).Sublist
      (temporaries (plan targets state list).flatten) :=
    (List.sublist_flatten_of_mem (List.mem_of_getElem? hplan)).map _
  refine ⟨hregular instruction hmem, victims_plan targets state list hi hplan,
    hdrawn.nodup.sublist hsublist, ?_⟩
  intro t ht hvars
  exact hdrawn.fresh t (hsublist.subset ht) (havoids instruction hmem t hvars)

namespace Replaces

variable {replacements : List Replacement} (h : Replaces targets replacements instruction)

include h

theorem nodup_victims : (replacements.map Replacement.victim).Nodup := by
  rw [h.victims_eq]
  exact nodup_eraseDups _

/-- A replacement is of a variable of the instruction that is to be spilled. -/
theorem victim {r : Replacement} (hr : r ∈ replacements) :
    r.victim ∈ targets ∧ ∃ v ∈ instruction.vars, r.victim = Name.ofVariable v := by
  rw [← mem_victims, ← h.victims_eq]
  exact List.mem_map_of_mem hr

theorem exists_replacement (hv : v ∈ instruction.vars) (htarget : Name.ofVariable v ∈ targets) :
    ∃ r ∈ replacements, r.victim = Name.ofVariable v := by
  have hmem : Name.ofVariable v ∈ replacements.map Replacement.victim := by
    rw [h.victims_eq, mem_victims]
    exact ⟨htarget, v, hv, rfl⟩
  exact List.mem_map.1 hmem

theorem image_eq_temporary {r : Replacement} (hr : r ∈ replacements)
    (hv : r.victim = Name.ofVariable v) : image replacements v = r.temporary :=
  image_of_mem h.nodup_victims hr hv

/-- Different variables of the instruction are replaced differently. -/
theorem image_inj {w : String} (hv : v ∈ instruction.vars) (hw : w ∈ instruction.vars)
    (heq : image replacements v = image replacements w) : v = w := by
  have hfresh : ∀ {u : String} {r : Replacement}, u ∈ instruction.vars → r ∈ replacements →
      r.temporary ≠ u := by
    rintro u r hu hr rfl
    exact h.fresh _ (List.mem_map_of_mem hr) hu
  by_cases hvr : ∃ r ∈ replacements, r.victim = Name.ofVariable v
  · obtain ⟨r, hr, hvictim⟩ := hvr
    rw [h.image_eq_temporary hr hvictim] at heq
    by_cases hws : ∃ s ∈ replacements, s.victim = Name.ofVariable w
    · obtain ⟨s, hs, hvictim'⟩ := hws
      rw [h.image_eq_temporary hs hvictim'] at heq
      rw [List.inj_on_of_nodup_map h.nodup hr hs heq] at hvictim
      exact Name.ofVariable_inj.1 (hvictim.symm.trans hvictim')
    · rw [image_eq_self fun s hs hvictim' => hws ⟨s, hs, hvictim'⟩] at heq
      exact absurd heq (hfresh hw hr)
  · rw [image_eq_self fun r hr hvictim => hvr ⟨r, hr, hvictim⟩] at heq
    by_cases hws : ∃ s ∈ replacements, s.victim = Name.ofVariable w
    · obtain ⟨s, hs, hvictim'⟩ := hws
      rw [h.image_eq_temporary hs hvictim'] at heq
      exact absurd heq.symm (hfresh hv hs)
    · rwa [image_eq_self fun s hs hvictim' => hws ⟨s, hs, hvictim'⟩] at heq

theorem rename_victim {r : Replacement} (hr : r ∈ replacements) :
    Name.rename (image replacements) r.victim = Name.ofVariable r.temporary := by
  obtain ⟨-, v, -, hv⟩ := h.victim hr
  rw [hv, Name.rename_ofVariable, h.image_eq_temporary hr hv]

omit h in
/-- A register or a variable that is not replaced keeps its name. -/
theorem rename_neutral {name : Name} {vars : List String}
    (hneutral : ∀ r ∈ replacements, r.victim ≠ name)
    (hname : name ∈ Register.generalPurpose ∨ ∃ v ∈ vars, name = Name.ofVariable v) :
    Name.rename (image replacements) name = name := by
  rcases hname with hregister | ⟨v, -, rfl⟩
  · exact Name.rename_register hregister
  · rw [Name.rename_ofVariable, image_eq_self hneutral]

/-- A name is kept or replaced. -/
theorem rename_cases {name : Name} {vars : List String}
    (hname : name ∈ Register.generalPurpose ∨ ∃ v ∈ vars, name = Name.ofVariable v) :
    ((∀ r ∈ replacements, r.victim ≠ name) ∧ Name.rename (image replacements) name = name) ∨
      ∃ r ∈ replacements, r.victim = name ∧
        Name.rename (image replacements) name = Name.ofVariable r.temporary := by
  by_cases hneutral : ∀ r ∈ replacements, r.victim ≠ name
  · exact Or.inl ⟨hneutral, rename_neutral hneutral hname⟩
  · simp only [ne_eq, not_forall, not_not] at hneutral
    obtain ⟨r, hr, rfl⟩ := hneutral
    exact Or.inr ⟨r, hr, rfl, h.rename_victim hr⟩

/-- The names that an instruction on temporaries has in place of those of the instruction. -/
theorem mem_map_rename {names : List Name}
    (hnames : ∀ n ∈ names, n ∈ Register.generalPurpose ∨
      ∃ v ∈ instruction.vars, n = Name.ofVariable v) {name : Name} :
    name ∈ names.map (Name.rename (image replacements)) ↔
      (name ∈ names ∧ ∀ r ∈ replacements, r.victim ≠ name) ∨
        ∃ r ∈ replacements, r.victim ∈ names ∧ name = Name.ofVariable r.temporary := by
  rw [List.mem_map]
  constructor
  · rintro ⟨n, hn, rfl⟩
    rcases h.rename_cases (hnames n hn) with ⟨hneutral, hrename⟩ | ⟨r, hr, rfl, hrename⟩
    · rw [hrename]
      exact Or.inl ⟨hn, hneutral⟩
    · exact Or.inr ⟨r, hr, hn, hrename⟩
  · rintro (⟨hn, hneutral⟩ | ⟨r, hr, hn, rfl⟩)
    · exact ⟨name, hn, rename_neutral hneutral (hnames name hn)⟩
    · exact ⟨r.victim, hn, h.rename_victim hr⟩

/-- A name that is read or written by the instruction. -/
theorem tracked {name : Name} (hname : name ∈ instruction.gen ∨ name ∈ instruction.kill) :
    name ∈ Register.generalPurpose ∨ ∃ v ∈ instruction.vars, name = Name.ofVariable v :=
  Instruction.tracked_of_isRegular h.regular hname

/-- **What the instruction on temporaries reads.** -/
theorem mem_gen {name : Name} :
    name ∈ (instruction.rename (image replacements)).gen ↔
      (name ∈ instruction.gen ∧ ∀ r ∈ replacements, r.victim ≠ name) ∨
        ∃ r ∈ replacements, r.victim ∈ instruction.gen ∧ name = Name.ofVariable r.temporary := by
  rw [Instruction.gen_rename h.regular]
  exact h.mem_map_rename fun n hn => h.tracked (Or.inl hn)

/-- **What the instruction on temporaries overwrites.** -/
theorem mem_kill {name : Name} :
    name ∈ (instruction.rename (image replacements)).kill ↔
      (name ∈ instruction.kill ∧ ∀ r ∈ replacements, r.victim ≠ name) ∨
        ∃ r ∈ replacements, r.victim ∈ instruction.kill ∧ name = Name.ofVariable r.temporary := by
  rw [Instruction.kill_rename h.regular]
  exact h.mem_map_rename fun n hn => h.tracked (Or.inr hn)

theorem eq_of_temporary_eq {r s : Replacement} (hr : r ∈ replacements) (hs : s ∈ replacements)
    (heq : r.temporary = s.temporary) : r = s :=
  List.inj_on_of_nodup_map h.nodup hr hs heq

/-- The instruction does not mention the temporaries. -/
theorem temporary_not_tracked {r : Replacement} (hr : r ∈ replacements) :
    Name.ofVariable r.temporary ∉ instruction.gen ∧
      Name.ofVariable r.temporary ∉ instruction.kill := by
  have hvars := h.fresh r.temporary (List.mem_map_of_mem hr)
  constructor
  · intro hgen
    exact hvars (Instruction.mem_vars_of_mem_gen_or_kill h.regular (Or.inl hgen))
  · intro hkill
    exact hvars (Instruction.mem_vars_of_mem_gen_or_kill h.regular (Or.inr hkill))

/-- A temporary is read in place of its variable. -/
theorem temporary_mem_gen {r : Replacement} (hr : r ∈ replacements) :
    Name.ofVariable r.temporary ∈ (instruction.rename (image replacements)).gen ↔
      r.victim ∈ instruction.gen := by
  rw [h.mem_gen]
  constructor
  · rintro (⟨hgen, -⟩ | ⟨s, hs, hgen, heq⟩)
    · exact absurd hgen (h.temporary_not_tracked hr).1
    · rwa [h.eq_of_temporary_eq hr hs (Name.ofVariable_inj.1 heq)]
  · intro hgen
    exact Or.inr ⟨r, hr, hgen, rfl⟩

/-- A temporary is overwritten in place of its variable. -/
theorem temporary_mem_kill {r : Replacement} (hr : r ∈ replacements) :
    Name.ofVariable r.temporary ∈ (instruction.rename (image replacements)).kill ↔
      r.victim ∈ instruction.kill := by
  rw [h.mem_kill]
  constructor
  · rintro (⟨hkill, -⟩ | ⟨s, hs, hkill, heq⟩)
    · exact absurd hkill (h.temporary_not_tracked hr).2
    · rwa [h.eq_of_temporary_eq hr hs (Name.ofVariable_inj.1 heq)]
  · intro hkill
    exact Or.inr ⟨r, hr, hkill, rfl⟩

/-- The variables of the instruction on temporaries. -/
theorem mem_vars :
    v ∈ (instruction.rename (image replacements)).vars ↔
      (v ∈ instruction.vars ∧ Name.ofVariable v ∉ targets) ∨ v ∈ temporaries replacements := by
  rw [Instruction.vars_rename h.regular, List.mem_map]
  constructor
  · rintro ⟨w, hw, rfl⟩
    by_cases htarget : Name.ofVariable w ∈ targets
    · obtain ⟨r, hr, hvictim⟩ := h.exists_replacement hw htarget
      rw [h.image_eq_temporary hr hvictim]
      exact Or.inr (List.mem_map_of_mem hr)
    · have hneutral : ∀ r ∈ replacements, r.victim ≠ Name.ofVariable w := by
        intro r hr heq
        exact htarget (heq ▸ (h.victim hr).1)
      rw [image_eq_self hneutral]
      exact Or.inl ⟨hw, htarget⟩
  · rintro (⟨hv, htarget⟩ | hv)
    · refine ⟨v, hv, image_eq_self ?_⟩
      intro r hr heq
      exact htarget (heq ▸ (h.victim hr).1)
    · obtain ⟨r, hr, rfl⟩ := List.mem_map.1 hv
      obtain ⟨-, w, hw, hvictim⟩ := h.victim hr
      exact ⟨w, hw, h.image_eq_temporary hr hvictim⟩

end Replaces

/-! ### Blocks -/

/-- How many loads a block starts with. -/
def loadCount (replacements : List Replacement) (instruction : Instruction) : Nat :=
  (replacements.filter fun r => instruction.gen.contains r.victim).length

/-- How many stores a block ends with. -/
def storeCount (replacements : List Replacement) (instruction : Instruction) : Nat :=
  (replacements.filter fun r => instruction.kill.contains r.victim).length

section Blocks

variable {replacements : List Replacement} {k : Nat} {step : Instruction}

theorem length_expand (replacements : List Replacement) (instruction : Instruction) :
    (expand replacements instruction).length =
      loadCount replacements instruction + 1 + storeCount replacements instruction := by
  simp [expand, loadCount, storeCount]
  omega

/-- The instruction on temporaries comes after the loads. -/
theorem getElem?_expand_core (replacements : List Replacement) (instruction : Instruction) :
    (expand replacements instruction)[loadCount replacements instruction]? =
      some (instruction.rename (image replacements)) := by
  rw [expand, List.getElem?_append_right (by simp [loadCount])]
  simp [loadCount]

/-- **The parts of a block.** -/
theorem expand_cases (h : (expand replacements instruction)[k]? = some step) :
    (k < loadCount replacements instruction ∧
        ∃ r ∈ replacements, r.victim ∈ instruction.gen ∧ step = r.load) ∨
      (k = loadCount replacements instruction ∧ step = instruction.rename (image replacements)) ∨
      (loadCount replacements instruction < k ∧
        ∃ r ∈ replacements, r.victim ∈ instruction.kill ∧ step = r.store) := by
  rcases Nat.lt_trichotomy k (loadCount replacements instruction) with hlt | heq | hgt
  · left
    rw [expand, List.getElem?_append_left (by simpa [loadCount] using hlt)] at h
    obtain ⟨r, hr, rfl⟩ := List.mem_map.1 (List.mem_of_getElem? h)
    obtain ⟨hr, hgen⟩ := List.mem_filter.1 hr
    exact ⟨hlt, r, hr, by simpa using hgen, rfl⟩
  · right; left
    rw [heq, getElem?_expand_core, Option.some_inj] at h
    exact ⟨heq, h.symm⟩
  · right; right
    obtain ⟨m, rfl⟩ : ∃ m, k = loadCount replacements instruction + (m + 1) :=
      ⟨k - loadCount replacements instruction - 1, by omega⟩
    rw [expand, List.getElem?_append_right (by simp [loadCount]), List.length_map, ← loadCount,
      Nat.add_sub_cancel_left, List.getElem?_cons_succ] at h
    obtain ⟨r, hr, rfl⟩ := List.mem_map.1 (List.mem_of_getElem? h)
    obtain ⟨hr, hkill⟩ := List.mem_filter.1 hr
    exact ⟨hgt, r, hr, by simpa using hkill, rfl⟩

end Blocks

namespace Replacement

variable (r : Replacement)

@[simp] theorem gen_load : r.load.gen = [] := rfl

@[simp] theorem kill_load : r.load.kill = [Name.ofVariable r.temporary] := rfl

@[simp] theorem vars_load : r.load.vars = [r.temporary] := rfl

@[simp] theorem gen_store : r.store.gen = [Name.ofVariable r.temporary] := rfl

@[simp] theorem kill_store : r.store.kill = [] := rfl

@[simp] theorem vars_store : r.store.vars = [r.temporary] := rfl

end Replacement

end Spill

end RegisterColouring
