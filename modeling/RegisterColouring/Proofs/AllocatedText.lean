/-
**The text of an allocated program.**

Spilling keeps code well formed as long as the temporaries that it introduces have names that are
identifiers: a temporary may stand wherever a variable may, and the cells of the frame lie at
multiples of eight.  The name of a temporary is the configured stem with a number after it, and
nothing looks at the stem.  It is an identifier exactly if the stem is one.  So the text of an
allocated program is read back if there are no temporaries or the stem is an identifier, and
otherwise it is not.

Main results:

* `RegisterColouring.isIdentifier_candidate_iff` — when the name of a temporary is an identifier;
* `RegisterColouring.Instruction.isWellFormed_rename`,
  `RegisterColouring.Function.isWellFormed_spill` — **spilling keeps code well formed**;
* `RegisterColouring.Program.isWellFormed_allocated_iff` — when the code of an allocated function is
  well formed;
* `RegisterColouring.Program.allocated_text_reads_back_iff` — **when the text of an allocated
  program is read back**.
-/

import RegisterColouring.Proofs.Accounts
import RegisterColouring.Proofs.ReadBack

set_option autoImplicit false

namespace RegisterColouring

/-! ### The names of temporaries -/

theorem isIdentifierRest_of_isDigit {c : Char} (h : c.isDigit = true) :
    isIdentifierRest c = true := by
  rw [Char.isDigit, Bool.and_eq_true, decide_eq_true_eq, decide_eq_true_eq] at h
  rw [isIdentifierRest, Bool.or_eq_true, Bool.and_eq_true, decide_eq_true_eq, decide_eq_true_eq]
  exact Or.inr h

theorem isIdentifierStart_of_isDigit {c : Char} (h : c.isDigit = true) :
    isIdentifierStart c = false := by
  have hrange : 48 ≤ c.toNat ∧ c.toNat ≤ 57 := by
    simpa [Char.isDigit, UInt32.le_iff_toNat_le] using h
  have hbounded : ∀ n ≤ 57, isIdentifierStart (Char.ofNat n) = false := by decide
  rw [← Char.ofNat_toNat c]
  exact hbounded c.toNat hrange.2

/-- **A number after a stem makes an identifier exactly of an identifier.** -/
theorem isIdentifier_candidate_iff {names : NameSupply} {n : Nat} :
    isIdentifier (names.candidate n).toList = true ↔ isIdentifier names.stem.toList = true := by
  have hdigits : ∀ c ∈ (Numeral.natural n).toList, c.isDigit = true := by
    intro c hc
    rw [Numeral.toList_natural] at hc
    exact Nat.isDigit_of_mem_toDigits (by decide) (by decide) hc
  rw [NameSupply.candidate, String.toList_append]
  cases names.stem.toList with
  | nil =>
      have hstart : isIdentifier (Numeral.natural n).toList = false := by
        cases hn : (Numeral.natural n).toList with
        | nil => rfl
        | cons c cs =>
            rw [isIdentifier, isIdentifierStart_of_isDigit (hdigits c (by rw [hn]; simp)),
              Bool.false_and]
      rw [List.nil_append, hstart]
      rfl
  | cons c cs =>
      have hall : (Numeral.natural n).toList.all isIdentifierRest = true :=
        List.all_eq_true.2 fun c hc => isIdentifierRest_of_isDigit (hdigits c hc)
      rw [List.cons_append, isIdentifier, isIdentifier, List.all_append, hall, Bool.and_true]

namespace NameSupply

@[simp] theorem stem_ofTaken (stem : String) (taken : List String) :
    (ofTaken stem taken).stem = Name.unsigiled stem := rfl

/-- A later state of a supply: the stem and the taken names are the same. -/
def Continues (names later : NameSupply) : Prop :=
  later.stem = names.stem ∧ later.taken = names.taken

namespace Continues

variable {names later last : NameSupply}

theorem refl (names : NameSupply) : names.Continues names := ⟨rfl, rfl⟩

theorem trans (h : names.Continues later) (h' : later.Continues last) : names.Continues last :=
  ⟨h'.1.trans h.1, h'.2.trans h.2⟩

theorem candidate_eq (h : names.Continues later) (n : Nat) :
    later.candidate n = names.candidate n := by
  rw [candidate, candidate, h.1]

/-- A name that was drawn is the stem with a number after it. -/
theorem candidate (h : names.Continues later) {ts : List String} (hdrawn : Drawn names later ts)
    {t : String} (ht : t ∈ ts) : ∃ n, t = names.candidate n := by
  rcases hdrawn.used t ht with htaken | ⟨n, -, rfl⟩
  · rw [h.2] at htaken
    exact absurd (Or.inl htaken) (hdrawn.fresh t ht)
  · exact ⟨n, h.candidate_eq n⟩

end Continues

end NameSupply

namespace Spill

theorem continues_replaceAll (state : State) (victims : List Name) :
    state.names.Continues (state.replaceAll victims).2.names := by
  induction victims generalizing state with
  | nil => exact .refl _
  | cons victim rest ih =>
      have hfirst : state.names.Continues (state.replace victim).2.names := by
        simp [State.replace, NameSupply.Continues]
      exact hfirst.trans (ih _)

theorem continues_code (targets : List Name) (state : State) (list : List Instruction) :
    state.names.Continues (code targets state list).2.names := by
  induction list generalizing state with
  | nil => exact .refl _
  | cons instruction rest ih =>
      exact (continues_replaceAll state (victims targets instruction)).trans (ih _)

end Spill

/-! ### Operands -/

namespace Item

variable {image : String → String} {item : Item}

@[simp] theorem isWritable_rename : (item.rename image).isWritable = item.isWritable := by
  cases item with
  | memory base offset => cases base <;> rfl
  | _ => rfl

@[simp] theorem isValue_rename : (item.rename image).isValue = item.isValue := by
  cases item with
  | memory base offset => cases base <;> rfl
  | _ => rfl

@[simp] theorem isShiftAmount_rename :
    Instruction.isShiftAmount (item.rename image) = Instruction.isShiftAmount item := by
  cases item with
  | memory base offset => cases base <;> rfl
  | _ => rfl

section

variable (himage : ∀ v, item.var? = some v → isIdentifier (image v).toList = true)

include himage

theorem isSource_rename (h : item.isSource = true) : (item.rename image).isSource = true := by
  cases item with
  | var name => exact himage name rfl
  | memory base offset => simp [isSource, isOperand] at h
  | _ => exact h

theorem isAssignable_rename (h : item.isAssignable = true) :
    (item.rename image).isAssignable = true := by
  rw [isAssignable_iff] at h ⊢
  exact ⟨isSource_rename himage h.1, by rw [isWritable_rename, h.2]⟩

theorem isOperand_rename (h : item.isOperand = true) : (item.rename image).isOperand = true := by
  rw [isOperand_iff] at h ⊢
  exact ⟨isSource_rename himage h.1, by rw [isValue_rename, h.2]⟩

theorem isAmount_rename (h : item.isAmount = true) : (item.rename image).isAmount = true := by
  rw [isAmount_iff] at h ⊢
  exact ⟨isSource_rename himage h.1, by rw [isShiftAmount_rename, h.2]⟩

theorem isCell_rename (h : item.isCell = true) : (item.rename image).isCell = true := by
  cases item with
  | memory base offset =>
      cases base with
      | var name =>
          rw [isCell, Bool.and_eq_true] at h
          rw [rename, isCell, Bool.and_eq_true]
          exact ⟨himage name rfl, h.2⟩
      | _ => exact h
  | _ => simp [isCell] at h

end

end Item

/-! ### Instructions -/

/-- **An instruction on other variables is well formed** if their names are identifiers. -/
theorem Instruction.isWellFormed_rename {image : String → String} {instruction : Instruction}
    (himage : ∀ v ∈ instruction.vars, isIdentifier (image v).toList = true)
    (h : instruction.isWellFormed = true) : (instruction.rename image).isWellFormed = true := by
  have hkeeps : ∀ item ∈ instruction.operands,
      (item.isAssignable = true → (item.rename image).isAssignable = true) ∧
      (item.isOperand = true → (item.rename image).isOperand = true) ∧
      (item.isSource = true → (item.rename image).isSource = true) ∧
      (item.isCell = true → (item.rename image).isCell = true) ∧
      (item.isAmount = true → (item.rename image).isAmount = true) := by
    intro item hitem
    have hvar : ∀ v, item.var? = some v → isIdentifier (image v).toList = true :=
      fun v hv => himage v (List.mem_filterMap.2 ⟨item, hitem, hv⟩)
    exact ⟨Item.isAssignable_rename hvar, Item.isOperand_rename hvar, Item.isSource_rename hvar,
      Item.isCell_rename hvar, Item.isAmount_rename hvar⟩
  cases instruction with
  | call callee arguments =>
      rw [isWellFormed, Bool.and_eq_true] at h
      rw [rename, isWellFormed, Bool.and_eq_true]
      refine ⟨?_, h.2⟩
      cases callee with
      | service s => rfl
      | code address =>
          have hmem : address ∈ (call (.code address) arguments).operands := by
            simp [operands, Callee.operands]
          cases address with
          | function name => exact h.1
          | memory base offset => simp [Callee.isWellFormed, Item.isAssignable] at h
          | _ => exact (hkeeps _ hmem).1 h.1
  | label name => exact h
  | goto target => exact h
  | ret => rfl
  | _ =>
      simp only [operands, List.mem_cons, List.not_mem_nil, or_false] at hkeeps
      simp only [isWellFormed, rename, Bool.and_eq_true, Bool.or_eq_true] at h ⊢
      grind

/-! ### Spilled functions -/

namespace Spill

/-- Cells lie at multiples of eight, even where offsets wrap around. -/
theorem dvd_offset (locals : UInt64) : (8 : Int) ∣ (8 * locals).toInt64.toInt := by
  have hsigned : (8 * locals).toInt64.toInt = (8 * locals).toBitVec.toInt := rfl
  have hproduct : (8 * locals).toBitVec.toNat = 8 * locals.toNat % 2 ^ 64 :=
    UInt64.toNat_mul 8 locals
  rw [hsigned, BitVec.toInt_eq_toNat_cond, hproduct]
  split
  · omega
  · omega

theorem Replacement.isWellFormed_load {r : Replacement}
    (htemporary : isIdentifier r.temporary.toList = true) (hoffset : (8 : Int) ∣ r.offset.toInt) :
    r.load.isWellFormed = true := by
  have hcell : (Item.slot r.offset).isCell = true := by
    rw [Item.slot, Item.isCell, decide_eq_true hoffset]
    rfl
  have htarget : (Item.var r.temporary).isAssignable = true := htemporary
  rw [load, Instruction.isWellFormed, htarget, hcell]
  simp

theorem Replacement.isWellFormed_store {r : Replacement}
    (htemporary : isIdentifier r.temporary.toList = true) (hoffset : (8 : Int) ∣ r.offset.toInt) :
    r.store.isWellFormed = true := by
  have hcell : (Item.slot r.offset).isCell = true := by
    rw [Item.slot, Item.isCell, decide_eq_true hoffset]
    rfl
  have hsource : (Item.var r.temporary).isSource = true := htemporary
  rw [store, Instruction.isWellFormed, hcell, hsource]
  simp

end Spill

namespace Function

variable {function : Function} {targets : List Name} {names : NameSupply}

theorem dvd_offset_spill {r : Spill.Replacement}
    (hr : r ∈ (function.spillPlan targets names).flatten) : (8 : Int) ∣ r.offset.toInt := by
  have hoffset : r.offset ∈ (function.spillSlots targets names).map Prod.snd :=
    List.mem_map_of_mem (mem_slots_of_mem_plan hr)
  rw [map_snd_slots, Spill.mem_offsets] at hoffset
  obtain ⟨k, -, hk⟩ := hoffset
  rw [hk]
  exact Spill.dvd_offset _

/-- **Spilling keeps code well formed**, if the temporaries have names that are identifiers. -/
theorem isWellFormed_spill (hcode : ∀ instruction ∈ function.code, instruction.isWellFormed = true)
    (htemporaries : ∀ t ∈ Spill.temporaries (function.spillPlan targets names).flatten,
      isIdentifier t.toList = true) :
    ∀ step ∈ (function.spill targets names).function.code, step.isWellFormed = true := by
  intro step hstep
  rw [code_spill] at hstep
  obtain ⟨p, hp⟩ := List.mem_iff_getElem?.1 hstep
  obtain ⟨i, replacements, instruction, k, hsite, hk, -⟩ := Spill.exists_site hp
  have hidentifier : ∀ r ∈ replacements, isIdentifier r.temporary.toList = true :=
    fun r hr => htemporaries _ (List.mem_map_of_mem (hsite.mem_flatten hr))
  rcases Spill.expand_cases hk with ⟨-, r, hr, -, rfl⟩ | ⟨-, rfl⟩ | ⟨-, r, hr, -, rfl⟩
  · exact Spill.Replacement.isWellFormed_load (hidentifier r hr)
      (dvd_offset_spill (hsite.mem_flatten hr))
  · have hinstruction := hcode instruction (List.mem_of_getElem? hsite.code_eq)
    refine Instruction.isWellFormed_rename ?_ hinstruction
    intro v hv
    unfold Spill.image
    split
    · next r hr => exact hidentifier r (List.mem_of_find?_eq_some hr)
    · exact Instruction.isIdentifier_of_mem_vars
        (Instruction.isProper_of_isWellFormed hinstruction) hv
  · exact Spill.Replacement.isWellFormed_store (hidentifier r hr)
      (dvd_offset_spill (hsite.mem_flatten hr))

end Function

/-! ### Allocated functions -/

namespace Allocation

variable {config : AllocationConfig} {names : NameSupply} {function : Function}

/-- A round keeps code well formed, if the temporaries so far have names that are identifiers. -/
theorem Round.isWellFormed {p q : Progress} (h : Round config p q)
    (hcode : ∀ instruction ∈ p.function.code, instruction.isWellFormed = true)
    (hidentifier : ∀ t, Name.ofVariable t ∈ q.unspillable → isIdentifier t.toList = true) :
    ∀ instruction ∈ q.function.code, instruction.isWellFormed = true := by
  obtain ⟨attempt, spills, event, -, -, rfl⟩ := h
  refine Function.isWellFormed_spill hcode fun t ht => hidentifier t ?_
  apply List.mem_append_right
  rw [Function.temporaries_spill]
  exact List.mem_map_of_mem ht

/-- **Rounds keep code well formed**, if the temporaries have names that are identifiers. -/
theorem Rounds.isWellFormed {n : Nat} {p q : Progress} (h : Rounds config n p q)
    (hcode : ∀ instruction ∈ p.function.code, instruction.isWellFormed = true)
    (hidentifier : ∀ t, Name.ofVariable t ∈ q.unspillable → isIdentifier t.toList = true) :
    ∀ instruction ∈ q.function.code, instruction.isWellFormed = true := by
  induction h with
  | refl => exact hcode
  | tail _ hround ih =>
      obtain ⟨ts, hts, -⟩ := hround.drawn
      refine hround.isWellFormed (ih hcode fun t ht => hidentifier t ?_) hidentifier
      rw [hts]
      exact List.mem_append_left _ ht

theorem Round.continues {p q : Progress} (h : Round config p q) : p.names.Continues q.names := by
  obtain ⟨attempt, spills, event, -, -, rfl⟩ := h
  exact Spill.continues_code spills _ p.function.code

theorem Rounds.continues {n : Nat} {p q : Progress} (h : Rounds config n p q) :
    p.names.Continues q.names := by
  induction h with
  | refl p => exact NameSupply.Continues.refl p.names
  | tail _ hround ih => exact ih.trans hround.continues

theorem continues_allocate (config : AllocationConfig) (names : NameSupply) (function : Function) :
    names.Continues (function.allocate names config).names := by
  obtain ⟨hnames, k, hrounds, -⟩ :=
    runFrom_last config (budget config function) (Progress.start function names)
  rw [Function.allocate, ← Progress.start, hnames]
  exact hrounds.continues

theorem Called.continues {names' : NameSupply} {functions : List Function}
    (h : Called config names functions function names') : names.Continues names' := by
  induction h with
  | here names => exact NameSupply.Continues.refl names
  | later _ _ ih => exact (continues_allocate config _ _).trans ih

/-- **The name of a temporary is the stem with a number after it.** -/
theorem Allocated.candidate {functions : List Function} {allocation : FunctionAllocation}
    {issued : List Name} (h : Allocated config names functions function allocation issued) :
    ∀ t ∈ issued, ∃ n, t = Name.ofVariable (names.candidate n) := by
  obtain ⟨names', k, last, attempt, hcalled, hrounds, -, -, -, rfl⟩ := h
  obtain ⟨ts, hts, hdrawn⟩ := hrounds.drawn
  intro name hname
  rw [hts] at hname
  obtain ⟨t, ht, rfl⟩ := List.mem_map.1 (by simpa [Progress.start] using hname)
  obtain ⟨n, rfl⟩ := hrounds.continues.candidate hdrawn ht
  exact ⟨n, congrArg Name.ofVariable (hcalled.continues.candidate_eq n)⟩

end Allocation

/-! ### Allocated programs -/

namespace Program

variable {text : List Char} {program : Program} {config : AllocationConfig}
  {allocation : ProgramAllocation}

open Allocation (Allocated)

/-- **When the code of an allocated function is well formed**: if there are no temporaries in it, or
the stem is an identifier. -/
theorem isWellFormed_allocated_iff (hread : Program.read text = .ok program) {function : Function}
    {a : FunctionAllocation} {issued : List Name}
    (hallocated : Allocated config (NameSupply.ofTaken config.stem program.vars) program.functions
      function a issued) :
    (∀ instruction ∈ a.function.code, instruction.isWellFormed = true) ↔
      issued = [] ∨ isIdentifier (Name.unsigiled config.stem).toList = true := by
  have hcandidate := hallocated.candidate
  constructor
  · intro hcode
    rw [or_iff_not_imp_left]
    intro hne
    obtain ⟨t, ht⟩ := List.exists_mem_of_ne_nil _ hne
    -- a temporary is a variable of the code
    obtain ⟨v, hv, rfl⟩ := ((accounts_of_allocated hread hallocated).1.vars t).2 (Or.inr ht)
    obtain ⟨instruction, hmem, hv⟩ := Function.mem_vars.1 hv
    have hidentifier := Instruction.isIdentifier_of_mem_vars
      (Instruction.isProper_of_isWellFormed (hcode instruction hmem)) hv
    obtain ⟨n, hn⟩ := hcandidate _ ht
    rwa [Name.ofVariable_inj.1 hn, isIdentifier_candidate_iff, NameSupply.stem_ofTaken]
      at hidentifier
  · intro hcases
    obtain ⟨names, k, last, attempt, hcalled, hrounds, -, -, ha, rfl⟩ := hallocated
    rw [show a.function = last.function from congrArg FunctionAllocation.function ha]
    refine hrounds.isWellFormed
      ((wellFormed_of_read hread).functions function hcalled.mem).code fun t ht => ?_
    rcases hcases with hnil | hstem
    · rw [hnil] at ht
      simp at ht
    · obtain ⟨n, hn⟩ := hcandidate _ ht
      rwa [Name.ofVariable_inj.1 hn, isIdentifier_candidate_iff, NameSupply.stem_ofTaken]

/-- Each function of an allocated program comes from one of the program. -/
theorem exists_allocated (hallocate : (program.allocate config).result = .ok allocation) {i : Nat}
    {output : Function} (houtput : allocation.program.functions[i]? = some output) :
    ∃ function a issued, program.functions[i]? = some function ∧
      (program.temporaries config)[i]? = some issued ∧ output = a.function ∧
      Allocated config (NameSupply.ofTaken config.stem program.vars) program.functions function a
        issued := by
  obtain ⟨-, hlength, hfunctions⟩ := allocate_ok hallocate
  rw [ProgramAllocation.program, List.getElem?_map, Option.map_eq_some_iff] at houtput
  obtain ⟨a, ha, rfl⟩ := houtput
  have hlt : i < program.functions.length := hlength ▸ (List.getElem?_eq_some_iff.1 ha).1
  have hfunction := List.getElem?_eq_getElem hlt
  obtain ⟨a', issued, ha', hissued, hallocated⟩ := hfunctions i _ hfunction
  obtain rfl := Option.some_inj.1 (ha.symm.trans ha')
  exact ⟨_, a, issued, hfunction, hissued, rfl, hallocated⟩

/-- **An allocated program is well formed**, up to the sizes of its frames, if and only if its code
is. -/
theorem wellFormed_reframed_iff (hread : Program.read text = .ok program)
    (hallocate : (program.allocate config).result = .ok allocation) :
    Program.WellFormed ⟨program.entry, allocation.program.functions.map Function.reframe⟩ ↔
      ∀ output ∈ allocation.program.functions, ∀ instruction ∈ output.code,
        instruction.isWellFormed = true := by
  have hprogram := wellFormed_of_read hread
  have hnames : (allocation.program.functions.map Function.reframe).map Function.name =
      program.functions.map Function.name := by
    rw [List.map_map, ← map_name_allocated hread hallocate]
    rfl
  constructor
  · intro h output houtput
    exact (h.functions _ (List.mem_map_of_mem houtput)).code
  · intro hcode
    refine ⟨hprogram.entry, ?_, hnames ▸ hprogram.distinct, hnames ▸ hprogram.entry_mem⟩
    intro reframed hreframed
    obtain ⟨output, houtput, rfl⟩ := List.mem_map.1 hreframed
    obtain ⟨i, hi⟩ := List.mem_iff_getElem?.1 houtput
    obtain ⟨function, a, issued, hfunction, -, rfl, hallocated⟩ := exists_allocated hallocate hi
    have hfunction := hprogram.functions function (List.mem_of_getElem? hfunction)
    have haccounts := (accounts_of_allocated hread hallocated).1
    exact ⟨haccounts.name_eq ▸ hfunction.name, haccounts.arity_eq ▸ hfunction.arity, rfl,
      hcode a.function houtput⟩

/-- When the code of all functions of an allocated program is well formed. -/
theorem isWellFormed_outputs_iff (hread : Program.read text = .ok program)
    (hallocate : (program.allocate config).result = .ok allocation) :
    (∀ output ∈ allocation.program.functions, ∀ instruction ∈ output.code,
        instruction.isWellFormed = true) ↔
      (program.temporaries config).flatten = [] ∨
        isIdentifier (Name.unsigiled config.stem).toList = true := by
  constructor
  · intro hcode
    rw [or_iff_not_imp_right, List.flatten_eq_nil_iff]
    intro hstem issued hissued
    obtain ⟨i, hi⟩ := List.mem_iff_getElem?.1 hissued
    have hlt : i < program.functions.length :=
      program.length_temporaries config ▸ (List.getElem?_eq_some_iff.1 hi).1
    obtain ⟨a, issued', ha, hissued', hallocated⟩ :=
      (allocate_ok hallocate).2.2 i _ (List.getElem?_eq_getElem hlt)
    obtain rfl := Option.some_inj.1 (hi.symm.trans hissued')
    have houtput : a.function ∈ allocation.program.functions :=
      List.mem_map_of_mem (List.mem_of_getElem? ha)
    exact ((isWellFormed_allocated_iff hread hallocated).1 (hcode _ houtput)).resolve_right hstem
  · intro hcases output houtput
    obtain ⟨i, hi⟩ := List.mem_iff_getElem?.1 houtput
    obtain ⟨function, a, issued, -, hissued, rfl, hallocated⟩ := exists_allocated hallocate hi
    refine (isWellFormed_allocated_iff hread hallocated).2 (hcases.imp_left fun hnil => ?_)
    exact List.flatten_eq_nil_iff.1 hnil issued (List.mem_of_getElem? hissued)

/-- **When the text of an allocated program is read back.**  Take a program that is read and any
configuration with which it is allocated, whatever its stem.  Reading the text of the allocated
program gives a program with the same entry and, in the same order, functions of the same name,
arity and code, exactly if no temporaries were introduced or the stem, without its sigil, is an
identifier. -/
theorem allocated_text_reads_back_iff (hread : Program.read text = .ok program)
    (hallocate : (program.allocate config).result = .ok allocation) :
    (∃ back, Program.read allocation.program.render.toList = .ok back ∧
        back.entry = program.entry ∧
        back.functions.map (fun f => (f.name, f.arity, f.code)) =
          allocation.program.functions.map fun f => (f.name, f.arity, f.code)) ↔
      (program.temporaries config).flatten = [] ∨
        isIdentifier (Name.unsigiled config.stem).toList = true := by
  rw [← isWellFormed_outputs_iff hread hallocate]
  constructor
  · -- what is read is well formed, and has the same code
    rintro ⟨back, hback, -, hfunctions⟩ output houtput
    have hmem : (output.name, output.arity, output.code) ∈
        back.functions.map fun f => (f.name, f.arity, f.code) := by
      rw [hfunctions]
      exact List.mem_map_of_mem houtput
    obtain ⟨f, hf, heq⟩ := List.mem_map.1 hmem
    have hcode : f.code = output.code := congrArg (fun parts => parts.2.2) heq
    rw [← hcode]
    exact ((wellFormed_of_read hback).functions f hf).code
  · intro hcode
    have hwellFormed := (wellFormed_reframed_iff hread hallocate).2 hcode
    have hrender : Program.render ⟨program.entry, allocation.program.functions.map
        Function.reframe⟩ = allocation.program.render := by
      rw [render, render, (allocate_ok hallocate).1.symm, List.map_map]
      rfl
    have hback := read_render hwellFormed
    rw [hrender] at hback
    refine ⟨_, hback, rfl, ?_⟩
    rw [List.map_map]
    rfl

/-- The text of a program that spills is read back with one stem, and with another it is not. -/
theorem calling_reads_back :
    (∃ allocation back, (calling.allocate ⟨0, "%S", .firstSeen⟩).result = .ok allocation ∧
      Program.read allocation.program.render.toList = .ok back) ∧
    ∃ allocation, (calling.allocate ⟨0, "%0", .firstSeen⟩).result = .ok allocation ∧
      ¬ ∃ back, Program.read allocation.program.render.toList = .ok back ∧
        back.entry = "calling" ∧
        back.functions.map (fun f => (f.name, f.arity, f.code)) =
          allocation.program.functions.map fun f => (f.name, f.arity, f.code) := by
  have hread : Program.read ("(@calling (@calling 0 (%x <- 1) (call @calling 0) (rax <- %x) " ++
      "(return)))").toList = .ok calling := by decide +kernel
  obtain ⟨proper, hproper⟩ : ∃ allocation,
      (calling.allocate ⟨0, "%S", .firstSeen⟩).result = .ok allocation := ⟨_, rfl⟩
  obtain ⟨digit, hdigit⟩ : ∃ allocation,
      (calling.allocate ⟨0, "%0", .firstSeen⟩).result = .ok allocation := ⟨_, rfl⟩
  constructor
  · obtain ⟨back, hback, -⟩ :=
      (allocated_text_reads_back_iff hread hproper).2 (Or.inr (by decide +kernel))
    exact ⟨proper, back, hproper, hback⟩
  · refine ⟨digit, hdigit, fun h => ?_⟩
    rcases (allocated_text_reads_back_iff hread hdigit).1 h with hnone | hstem
    · exact absurd hnone (by decide +kernel)
    · exact absurd hstem (by decide +kernel)

end Program

end RegisterColouring
