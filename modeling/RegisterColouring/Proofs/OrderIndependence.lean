/-
**The order of functions.**

The functions of a program are allocated one after the other, and all draw their temporaries from
one supply of names.  So the order of the functions decides how the temporaries of a function are
called, and nothing else about it, unless names come to compare differently: ties between variables
go to the one whose name comes first.  A function is allocated as in any other order, but for the
names of its temporaries, as long as they compare alike.

Main definitions:

* `RegisterColouring.FunctionAllocation.Renames` — allocations that differ in names only.

Main results:

* `RegisterColouring.Allocation.Allocated.renames` — a function that is allocated twice;
* `RegisterColouring.Program.order_immaterial` — **when the order of functions makes no
  difference**;
* `RegisterColouring.Program.order_matters` — sometimes it does.
-/

import RegisterColouring.Proofs.Lockstep
import RegisterColouring.Proofs.ReadBack

set_option autoImplicit false

namespace RegisterColouring

/-- **An allocation of a function is another one with its temporaries renamed**: it takes as many
rounds, spills the same variables in the same order and to the same frame, and its code and its
registers are those of the other one, renamed. -/
structure FunctionAllocation.Renames (image : String → String) (a a' : FunctionAllocation) :
    Prop where
  rounds_eq : a'.rounds = a.rounds
  spilled_eq : a'.spilled = a.spilled
  locals_eq : a'.function.locals = a.function.locals
  code_eq : a'.function.code = a.function.code.map (Instruction.rename image)
  registers_eq : a'.registers = a.registers.map fun (name, r) => (Name.rename image name, r)

namespace Allocation

variable {config : AllocationConfig} {function : Function} {names names' : NameSupply}

/-- The temporaries of a function are no variables of it. -/
theorem Rounds.fresh {k : Nat} {last : Progress} (havoids : ∀ v ∈ function.vars, names.Avoids v)
    (h : Rounds config k (Progress.start function names) last) :
    last.unspillable.Nodup ∧
      ∀ name ∈ last.unspillable, ∃ t ∉ function.vars, name = Name.ofVariable t := by
  obtain ⟨ts, hts, hdrawn⟩ := h.drawn
  rw [Progress.start, List.nil_append] at hts
  rw [hts]
  refine ⟨hdrawn.nodup.map fun v w heq => Name.ofVariable_inj.1 heq, ?_⟩
  intro name hname
  obtain ⟨t, ht, rfl⟩ := List.mem_map.1 hname
  exact ⟨t, fun hv => hdrawn.fresh t ht (havoids t hv), rfl⟩

/-- **A function that is allocated twice**, with temporaries that compare alike. -/
theorem Allocated.renames {first second : NameSupply} {functions functions' : List Function}
    {a a' : FunctionAllocation} {issued issued' : List Name} (hregular : function.Regular)
    (havoids : ∀ names, Called config first functions function names →
      ∀ v ∈ function.vars, names.Avoids v)
    (havoids' : ∀ names, Called config second functions' function names →
      ∀ v ∈ function.vars, names.Avoids v)
    (h : Allocated config first functions function a issued)
    (h' : Allocated config second functions' function a' issued')
    (halike : CompareAlike function.vars issued issued') :
    issued' = issued.map (Name.rename (counterpart issued issued')) ∧
      a.Renames (counterpart issued issued') a' := by
  obtain ⟨names, k, last, attempt, hcalled, hrounds, hattempt, hassigned, ha, rfl⟩ := h
  obtain ⟨names', k', last', attempt', hcalled', hrounds', hattempt', hassigned', ha', rfl⟩ := h'
  have hnames := havoids names hcalled
  obtain ⟨hnodup, hfresh⟩ := hrounds.fresh hnames
  have hpaired : Paired function.vars last.unspillable last'.unspillable :=
    ⟨hnodup, hfresh, (hrounds'.fresh (havoids' names' hcalled')).2, halike⟩
  -- before the first round there are no temporaries
  have hstart : InStep (counterpart last.unspillable last'.unspillable)
      (Progress.start function names) (Progress.start function names') := by
    refine ⟨?_, rfl, rfl⟩
    have hcode : function.code.map (Instruction.rename
        (counterpart last.unspillable last'.unspillable)) = function.code := by
      rw [List.map_congr_left (g := id), List.map_id]
      intro instruction hmem
      rw [id, ← instruction.rename_id, Instruction.rename_rename]
      apply Instruction.rename_congr
      intro v hv
      exact hpaired.counterpart_eq_self (Function.mem_vars.2 ⟨instruction, hmem, hv⟩)
    rw [Progress.start, Progress.start, Function.relabel, hcode]
  obtain ⟨rfl, hend, hassignment⟩ := hstart.rounds (sound_start hregular hnames) hnames hpaired
    hrounds hrounds' hattempt hassigned hattempt' hassigned'
  refine ⟨hend.unspillable_eq, ?_⟩
  rw [hassigned, hassigned', Assignment.relabel, Assignment.registers.injEq] at hassignment
  rw [ha, ha']
  refine ⟨rfl, hend.spilled_eq, ?_, ?_, hassignment⟩
  · rw [hend.function_eq]
    rfl
  · rw [hend.function_eq]
    rfl

end Allocation

theorem exists_of_map_eq_ok {ε α β : Type} {f : α → β} {x : Except ε α} {b : β}
    (h : x.map f = .ok b) : ∃ a, x = .ok a ∧ f a = b := by
  cases x with
  | ok a => exact ⟨a, rfl, Except.ok.inj h⟩
  | error e => cases h

namespace Program

variable {text : List Char} {program : Program} {config : AllocationConfig}
  {allocation allocation' : ProgramAllocation} {functions : List Function}

open Allocation (Called CompareAlike counterpart)

/-- A program that is read can be read with its functions in another order. -/
theorem exists_read_perm (hread : Program.read text = .ok program)
    (hperm : functions.Perm program.functions) :
    ∃ text', Program.read text' = .ok ⟨program.entry, functions⟩ := by
  have hwellFormed := wellFormed_of_read hread
  refine ⟨_, read_render ⟨hwellFormed.entry, ?_, ?_, ?_⟩⟩
  · exact fun function hmem => hwellFormed.functions function (hperm.subset hmem)
  · exact (hperm.map Function.name).nodup_iff.2 hwellFormed.distinct
  · exact (hperm.map Function.name).mem_iff.2 hwellFormed.entry_mem

/-- **When the order of functions makes no difference.**  Take a program that is read, its functions
in another order, and a configuration with which both are allocated.  Wherever a function stands in
the two, it has an allocation and a list of temporaries in both.  If the two lists compare alike,
place by place, then the function takes as many rounds, spills the same variables and has the same
frame, and its code and registers are the same after each temporary has been renamed to the one in
its place. -/
theorem order_immaterial (hread : Program.read text = .ok program)
    (hperm : functions.Perm program.functions)
    (hallocate : (program.allocate config).result = .ok allocation)
    (hallocate' : ((⟨program.entry, functions⟩ : Program).allocate config).result =
      .ok allocation') {i j : Nat} {function : Function}
    (hi : program.functions[i]? = some function) (hj : functions[j]? = some function) :
    ∃ a issued a' issued', allocation.functions[i]? = some a ∧
      (program.temporaries config)[i]? = some issued ∧ allocation'.functions[j]? = some a' ∧
      ((⟨program.entry, functions⟩ : Program).temporaries config)[j]? = some issued' ∧
      (CompareAlike function.vars issued issued' →
        issued' = issued.map (Name.rename (counterpart issued issued')) ∧
          a.Renames (counterpart issued issued') a') := by
  obtain ⟨text', hread'⟩ := exists_read_perm hread hperm
  obtain ⟨-, -, hall⟩ := allocate_ok hallocate
  obtain ⟨-, -, hall'⟩ := allocate_ok hallocate'
  obtain ⟨a, issued, ha, hissued, hallocated⟩ := hall i function hi
  obtain ⟨a', issued', ha', hissued', hallocated'⟩ := hall' j function hj
  refine ⟨a, issued, a', issued', ha, hissued, ha', hissued', ?_⟩
  have hregular : function.Regular := Function.IsParsed.regular
    (Or.inr (Or.inl ⟨text, program, hread, List.mem_of_getElem? hi⟩))
  exact hallocated.renames hregular (fun names hcalled v => avoids_of_called hread hcalled)
    (fun names hcalled v => avoids_of_called hread' hcalled) hallocated'

/-- A function that keeps a variable across a call. -/
def keepingOne : Function :=
  .ofCode "one" 0 [.assign (.var "z") (.number 1), .call (.code (.function "one")) 0,
    .assign (.register "rax") (.var "z"), .ret]

/-- Another such function, with a variable whose name starts like that of a temporary. -/
def keepingOther : Function :=
  .ofCode "other" 0 [.assign (.var "x") (.number 1), .call (.code (.function "one")) 0,
    .assign (.var "S1a") (.number 5), .arith .add (.var "S1a") (.var "x"), .ret]

/-- The two functions in one order. -/
def oneFirst : Program := ⟨"one", [keepingOne, keepingOther]⟩

/-- The two functions in the other order. -/
def otherFirst : Program := ⟨"one", [keepingOther, keepingOne]⟩

theorem temporaries_oneFirst :
    oneFirst.temporaries ⟨0, "%S", .highestDegree⟩ = [["%S0", "%S1"], ["%S2", "%S3"]] := by
  decide +kernel

theorem temporaries_otherFirst :
    otherFirst.temporaries ⟨0, "%S", .highestDegree⟩ = [["%S0", "%S1"], ["%S2", "%S3"]] := by
  decide +kernel

theorem registers_oneFirst :
    (oneFirst.allocate ⟨0, "%S", .highestDegree⟩).result.map
        (fun allocation => allocation.functions.map FunctionAllocation.registers) =
      .ok [[("%S0", "rdi"), ("%S1", "rdi")],
        [("%S2", "rdi"), ("%S1a", "rsi"), ("%S3", "rdi")]] := by
  decide +kernel

theorem registers_otherFirst :
    (otherFirst.allocate ⟨0, "%S", .highestDegree⟩).result.map
        (fun allocation => allocation.functions.map FunctionAllocation.registers) =
      .ok [[("%S0", "rdi"), ("%S1a", "rdi"), ("%S1", "rsi")],
        [("%S2", "rdi"), ("%S3", "rdi")]] := by
  decide +kernel

/-- The order makes no difference to the function of one variable: its temporaries precede the
variable in both. -/
theorem one_order_immaterial :
    ∃ (allocation allocation' : ProgramAllocation) (a a' : FunctionAllocation)
      (issued issued' : List Name),
      (otherFirst.allocate ⟨0, "%S", .highestDegree⟩).result = .ok allocation ∧
      (oneFirst.allocate ⟨0, "%S", .highestDegree⟩).result = .ok allocation' ∧
      allocation.functions[1]? = some a ∧ allocation'.functions[0]? = some a' ∧
      issued = ["%S2", "%S3"] ∧ issued' = ["%S0", "%S1"] ∧
      CompareAlike keepingOne.vars issued issued' ∧
      a.Renames (counterpart issued issued') a' := by
  have hread : Program.read otherFirst.render.toList = .ok otherFirst :=
    read_render (by decide +kernel)
  obtain ⟨allocation, hallocate, -⟩ := exists_of_map_eq_ok registers_otherFirst
  obtain ⟨allocation', hallocate', -⟩ := exists_of_map_eq_ok registers_oneFirst
  obtain ⟨a, issued, a', issued', ha, hissued, ha', hissued', himmaterial⟩ :=
    order_immaterial hread (List.Perm.swap ..) hallocate hallocate' (i := 1) (j := 0) rfl rfl
  have htemporaries : issued = ["%S2", "%S3"] := by
    rw [temporaries_otherFirst] at hissued
    exact (Option.some_inj.1 hissued).symm
  have htemporaries' : issued' = ["%S0", "%S1"] := by
    have hall := temporaries_oneFirst
    rw [oneFirst] at hall
    rw [otherFirst, hall] at hissued'
    exact (Option.some_inj.1 hissued').symm
  have halike : CompareAlike keepingOne.vars issued issued' := by
    rw [htemporaries, htemporaries']
    exact ⟨by decide +kernel, by decide +kernel⟩
  exact ⟨allocation, allocation', a, a', issued, issued', hallocate, hallocate', ha, ha',
    htemporaries, htemporaries', halike, (himmaterial halike).2⟩

/-- **Sometimes the order makes a difference.**  When the other function comes first, its temporary
`%S1` precedes its variable `%S1a`; when it comes second, `%S3` does not, and the two registers
change places. -/
theorem order_matters :
    ∃ (allocation allocation' : ProgramAllocation) (a a' : FunctionAllocation)
      (issued issued' : List Name),
      (otherFirst.allocate ⟨0, "%S", .highestDegree⟩).result = .ok allocation ∧
      (oneFirst.allocate ⟨0, "%S", .highestDegree⟩).result = .ok allocation' ∧
      allocation.functions[0]? = some a ∧ allocation'.functions[1]? = some a' ∧
      (otherFirst.temporaries ⟨0, "%S", .highestDegree⟩)[0]? = some issued ∧
      (oneFirst.temporaries ⟨0, "%S", .highestDegree⟩)[1]? = some issued' ∧
      ¬ a.Renames (counterpart issued issued') a' := by
  obtain ⟨allocation, hallocate, hregisters⟩ := exists_of_map_eq_ok registers_otherFirst
  obtain ⟨allocation', hallocate', hregisters'⟩ := exists_of_map_eq_ok registers_oneFirst
  have hfirst : (allocation.functions.map FunctionAllocation.registers)[0]? =
      some [("%S0", "rdi"), ("%S1a", "rdi"), ("%S1", "rsi")] := by rw [hregisters]; rfl
  have hsecond : (allocation'.functions.map FunctionAllocation.registers)[1]? =
      some [("%S2", "rdi"), ("%S1a", "rsi"), ("%S3", "rdi")] := by rw [hregisters']; rfl
  rw [List.getElem?_map, Option.map_eq_some_iff] at hfirst hsecond
  obtain ⟨a, ha, hassigned⟩ := hfirst
  obtain ⟨a', ha', hassigned'⟩ := hsecond
  refine ⟨allocation, allocation', a, a', ["%S0", "%S1"], ["%S2", "%S3"], hallocate, hallocate', ha,
    ha', by rw [temporaries_otherFirst]; rfl, by rw [temporaries_oneFirst]; rfl, ?_⟩
  intro h
  have hregisters_eq := h.registers_eq
  rw [hassigned, hassigned'] at hregisters_eq
  exact absurd hregisters_eq (by decide +kernel)

end Program

end RegisterColouring
