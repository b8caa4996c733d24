/-
**The record of an allocation accounts for every variable.**

An allocation records which variables of a function were spilled, and in how many rounds.  Each round
adds the variables that it spills, which are variables of the function still in its code; it takes
them out of the code, gives each a cell of its own, and puts temporaries in that no later round takes
out.  So the record and the temporaries say what the variables of the code are, and how much larger
the frame is; and since each round but the last spills some variable, there are at most as many of
them as variables that were spilled.

Main definitions:

* `RegisterColouring.Accounts` — what the variables on record say about the code.

Main results:

* `RegisterColouring.Function.perm_slots`, `RegisterColouring.Function.locals_spill` — each spilled
  variable gets one cell, and the frame grows by as many;
* `RegisterColouring.Accounts.spill` — spilling more variables keeps the accounts;
* `RegisterColouring.Allocation.Rounds.accounts` — rounds keep them;
* `RegisterColouring.Program.allocation_accounts` — **the record of an allocation accounts for every
  variable**.
-/

import RegisterColouring.Proofs.SpilledRuns
import RegisterColouring.Proofs.Temporaries

set_option autoImplicit false

namespace RegisterColouring

/-- **What the variables on record say about the code**, when some variables of a function are
spilled and temporaries introduced.  The code has the variables of the function that are not on
record, and the temporaries; the frame has one more cell for each variable on record. -/
structure Accounts (function current : Function) (spilled temporaries : List Name) : Prop where
  name_eq : current.name = function.name
  arity_eq : current.arity = function.arity
  labels_eq : current.code.filterMap Instruction.label? =
    function.code.filterMap Instruction.label?
  nodup : spilled.Nodup
  isVariableOf : ∀ name ∈ spilled, IsVariableOf function.vars name
  gone : ∀ name ∈ spilled, ¬ IsVariableOf current.vars name
  vars : ∀ name, IsVariableOf current.vars name ↔
    (IsVariableOf function.vars name ∧ name ∉ spilled) ∨ name ∈ temporaries
  locals_eq : current.locals = function.locals + UInt64.ofNat spilled.length

theorem Accounts.refl (function : Function) : Accounts function function [] [] where
  name_eq := rfl
  arity_eq := rfl
  labels_eq := rfl
  nodup := List.nodup_nil
  isVariableOf := by simp
  gone := by simp
  vars := by simp
  locals_eq := by simp

/-! ### Spilled functions -/

namespace Function

variable {function : Function} {targets : List Name} {names : NameSupply} {name : Name}
  (hregular : function.Regular) (havoids : ∀ v ∈ function.vars, names.Avoids v)

/-- No temporary is a name that the supply avoids. -/
theorem not_mem_temporaries_spill {vars : List String} (hvars : ∀ v ∈ vars, names.Avoids v)
    (hname : IsVariableOf vars name) : name ∉ (function.spill targets names).temporaries := by
  obtain ⟨v, hv, rfl⟩ := hname
  rw [temporaries_spill]
  intro hmem
  obtain ⟨t, ht, heq⟩ := List.mem_map.1 hmem
  obtain rfl := Name.ofVariable_inj.1 heq
  exact (function.drawn_spill targets names).fresh t ht (hvars t hv)

/-- **Each spilled variable gets one cell**: those with a cell are those that are to be spilled. -/
theorem perm_slots (function : Function) (names : NameSupply) (hnodup : targets.Nodup)
    (htargets : ∀ name ∈ targets, IsVariableOf function.vars name) :
    ((function.spillSlots targets names).map Prod.fst).Perm targets := by
  refine (List.perm_ext_iff_of_nodup (function.nodup_slots targets names) hnodup).2 ?_
  intro name
  rw [mem_slots_iff]
  exact ⟨And.left, fun hname => ⟨hname, htargets name hname⟩⟩

/-- The frame grows by as many cells as variables are spilled. -/
theorem locals_spill (hnodup : targets.Nodup)
    (htargets : ∀ name ∈ targets, IsVariableOf function.vars name) :
    (function.spill targets names).function.locals =
      function.locals + UInt64.ofNat targets.length := by
  have hlength := (function.perm_slots names hnodup htargets).length_eq
  rw [List.length_map] at hlength
  rw [← hlength, locals_spill_slots]

include hregular havoids

theorem isVariableOf_spill :
    IsVariableOf (function.spill targets names).function.vars name ↔
      (IsVariableOf function.vars name ∧ name ∉ targets) ∨
        name ∈ (function.spill targets names).temporaries := by
  rw [temporaries_spill, List.mem_map]
  constructor
  · rintro ⟨v, hv, rfl⟩
    rcases (mem_vars_spill hregular havoids).1 hv with ⟨hv, htarget⟩ | hv
    · exact Or.inl ⟨⟨v, hv, rfl⟩, htarget⟩
    · exact Or.inr ⟨v, hv, rfl⟩
  · rintro (⟨⟨v, hv, rfl⟩, htarget⟩ | ⟨v, hv, rfl⟩)
    · exact ⟨v, (mem_vars_spill hregular havoids).2 (Or.inl ⟨hv, htarget⟩), rfl⟩
    · exact ⟨v, (mem_vars_spill hregular havoids).2 (Or.inr hv), rfl⟩

theorem labels_spill :
    (function.spill targets names).function.code.filterMap Instruction.label? =
      function.code.filterMap Instruction.label? := by
  have hplanned : Spill.Planned targets function.code (function.spillPlan targets names) :=
    planned_spill hregular havoids
  rw [code_spill, Spill.labels_expanded hplanned.length_eq]

end Function

/-- **Spilling more variables keeps the accounts.** -/
theorem Accounts.spill {function current : Function} {spilled temporaries targets : List Name}
    {names : NameSupply} (h : Accounts function current spilled temporaries)
    (hregular : current.Regular) (hcurrent : ∀ v ∈ current.vars, names.Avoids v)
    (hfunction : ∀ v ∈ function.vars, names.Avoids v) (hnodup : targets.Nodup)
    (htargets : ∀ name ∈ targets, IsVariableOf current.vars name ∧ name ∉ temporaries) :
    Accounts function (current.spill targets names).function (spilled ++ targets)
      (temporaries ++ (current.spill targets names).temporaries) where
  name_eq := h.name_eq
  arity_eq := h.arity_eq
  labels_eq := (Function.labels_spill hregular hcurrent).trans h.labels_eq
  nodup := by
    rw [List.nodup_append]
    refine ⟨h.nodup, hnodup, ?_⟩
    rintro name hname _ htarget rfl
    exact h.gone name hname (htargets name htarget).1
  isVariableOf name hname := by
    rcases List.mem_append.1 hname with hname | htarget
    · exact h.isVariableOf name hname
    · obtain ⟨hvariable, htemporary⟩ := htargets name htarget
      exact (((h.vars name).1 hvariable).resolve_right htemporary).1
  gone name hname := by
    rw [Function.isVariableOf_spill hregular hcurrent]
    rcases List.mem_append.1 hname with hname | htarget
    · rintro (⟨hvariable, -⟩ | hnew)
      · exact h.gone name hname hvariable
      · exact Function.not_mem_temporaries_spill hfunction (h.isVariableOf name hname) hnew
    · rintro (⟨-, hkept⟩ | hnew)
      · exact hkept htarget
      · exact Function.not_mem_temporaries_spill hcurrent (htargets name htarget).1 hnew
  vars name := by
    have hkept : name ∈ temporaries → name ∉ targets := fun htemporary htarget =>
      (htargets name htarget).2 htemporary
    rw [Function.isVariableOf_spill hregular hcurrent, h.vars, List.mem_append, List.mem_append]
    tauto
  locals_eq := by
    rw [Function.locals_spill hnodup fun name hname => (htargets name hname).1,
      h.locals_eq, List.length_append, UInt64.ofNat_add, UInt64.add_assoc]

/-! ### Rounds -/

theorem VariableList.nodup {vars : List String} {names : List Name}
    (h : VariableList vars names) : names.Nodup := by
  apply h.sorted.imp
  rintro a _ hlt rfl
  exact String.lt_irrefl a hlt

namespace Allocation

variable {config : AllocationConfig} {function : Function} {names : NameSupply} {p q : Progress}

theorem vocabulary_ofAnalysed {result : Liveness} (h : result.Analysed function) :
    (Graph.ofLiveness result).vocabulary = Vocabulary.ofVariables function.vars := by
  rw [Graph.vocabulary_ofLiveness, h.vocabulary_eq, Vocabulary.ofFunction]

/-- What a round spills is a list of variables in the code, without repetitions. -/
theorem variableList_spills {attempt : Attempt} {spills : List Name}
    (hattempt : p.attempt config = .ok attempt) (hspills : attempt.assignment = .spills spills) :
    VariableList p.function.vars spills := by
  obtain ⟨result, optimistic, hresult, hcolour⟩ := attempt_eq_ok hattempt
  have hanalysed := Liveness.analysed_of_analyse hresult
  rw [hspills] at hcolour
  rcases Graph.colour_ends (Graph.simple_ofLiveness hanalysed) (vocabulary_ofAnalysed hanalysed)
    p.function.name ⟨config.heuristic, p.unspillable⟩ with
    ⟨colouring, assigned, hok, hassigned, -⟩ | ⟨colouring, hok, -, hlist, -⟩ | ⟨nodes, herror, -⟩
  · obtain rfl := Except.ok.inj (hok.symm.trans hcolour)
    simp [Colouring.registers?] at hassigned
  · obtain rfl := Except.ok.inj (hok.symm.trans hcolour)
    exact hlist
  · exact absurd (herror.symm.trans hcolour) (by simp)

/-- **A round keeps the accounts**, and puts some variable on record. -/
theorem Sound.accounts_round (h : Sound function names p) (hround : Round config p q)
    (havoids : ∀ v ∈ function.vars, names.Avoids v)
    (haccounts : Accounts function p.function p.spilled p.unspillable) :
    Accounts function q.function q.spilled q.unspillable ∧
      p.spilled.length < q.spilled.length := by
  obtain ⟨attempt, spills, event, hattempt, hspills, rfl⟩ := hround
  have hlist := variableList_spills hattempt hspills
  constructor
  · apply haccounts.spill h.regular h.avoids (fun v hv => h.mono v (havoids v hv)) hlist.nodup
    intro name hname
    exact ⟨hlist.isVariable name hname, ((h.spills hattempt hspills).2 name hname).1⟩
  · have hpos := List.length_pos_of_ne_nil hlist.nonempty
    rw [Progress.spill, List.length_append]
    omega

/-- **Rounds keep the accounts**, and there are at most as many as variables on record. -/
theorem Rounds.accounts {n : Nat} (h : Rounds config n (Progress.start function names) p)
    (hregular : function.Regular) (havoids : ∀ v ∈ function.vars, names.Avoids v) :
    Accounts function p.function p.spilled p.unspillable ∧ n ≤ p.spilled.length := by
  refine (sound_start hregular havoids).rounds_induction havoids h
    (motive := fun n p =>
      Accounts function p.function p.spilled p.unspillable ∧ n ≤ p.spilled.length)
    ⟨Accounts.refl function, Nat.zero_le _⟩ ?_
  rintro n p q hsound hround ⟨hbefore, hle⟩
  obtain ⟨hafter, hlt⟩ := hsound.accounts_round hround havoids hbefore
  exact ⟨hafter, by omega⟩

/-- The registers that the last round gives are a valid colouring of the code. -/
theorem isAssignment_of_attempt {attempt : Attempt} {assigned : List (Name × String)}
    (hattempt : p.attempt config = .ok attempt)
    (hassigned : attempt.assignment = .registers assigned) :
    ∃ result, Liveness.analyse p.function = .ok result ∧
      (Graph.ofLiveness result).IsAssignment p.function.vars assigned := by
  obtain ⟨result, optimistic, hresult, hcolour⟩ := attempt_eq_ok hattempt
  have hanalysed := Liveness.analysed_of_analyse hresult
  rw [hassigned] at hcolour
  exact ⟨result, hresult, Graph.isAssignment (Graph.simple_ofLiveness hanalysed)
    (vocabulary_ofAnalysed hanalysed) hcolour⟩

end Allocation

namespace Program

variable {text : List Char} {program : Program} {config : AllocationConfig}
  {allocation : ProgramAllocation}

open Allocation (Allocated)

/-- What is on record for an allocated function. -/
theorem accounts_of_allocated (hread : Program.read text = .ok program) {function : Function}
    {a : FunctionAllocation} {issued : List Name}
    (hallocated : Allocated config (NameSupply.ofTaken config.stem program.vars) program.functions
      function a issued) :
    Accounts function a.function a.spilled issued ∧ (a.registers.map Prod.fst).Nodup ∧
      (∀ name, name ∈ a.registers.map Prod.fst ↔ IsVariableOf a.function.vars name) ∧
      0 < a.rounds ∧ a.rounds - 1 ≤ a.spilled.length := by
  obtain ⟨names, k, last, attempt, hcalled, hrounds, hattempt, hassigned, ha, rfl⟩ := hallocated
  obtain ⟨haccounts, hle⟩ := hrounds.accounts (regular_of_called hread hcalled)
    fun v hv => avoids_of_called hread hcalled hv
  obtain ⟨result, -, hassignment⟩ := Allocation.isAssignment_of_attempt hattempt hassigned
  have hfunction : a.function = last.function := congrArg FunctionAllocation.function ha
  have hspilled : a.spilled = last.spilled := congrArg FunctionAllocation.spilled ha
  have hcount : a.rounds = k + 1 := congrArg FunctionAllocation.rounds ha
  rw [hfunction, hspilled, hcount]
  exact ⟨haccounts, hassignment.nodup, hassignment.domain, Nat.succ_pos k, hle⟩

/-- The functions of an allocated program have the names of the functions they come from. -/
theorem map_name_allocated (hread : Program.read text = .ok program)
    (hallocate : (program.allocate config).result = .ok allocation) :
    allocation.program.functions.map Function.name = program.functions.map Function.name := by
  obtain ⟨-, hlength, hfunctions⟩ := allocate_ok hallocate
  apply List.ext_getElem?
  intro i
  rw [ProgramAllocation.program, List.getElem?_map, List.getElem?_map, List.getElem?_map]
  cases hi : program.functions[i]? with
  | none =>
      rw [List.getElem?_eq_none_iff, ← hlength, ← List.getElem?_eq_none_iff] at hi
      rw [hi]
      rfl
  | some function =>
      obtain ⟨a, issued, ha, -, hallocated⟩ := hfunctions i function hi
      rw [ha]
      exact congrArg some (accounts_of_allocated hread hallocated).1.name_eq

/-- **The record of an allocation accounts for every variable.**  Take a program that is read and any
configuration with which it is allocated.  The allocated program has the same entry and one function
for each function of the program, in the same order and with the same name.  For each of them the
variables on record are those that were spilled, without repetitions; the code has the other
variables of the function and the temporaries that were introduced for it, all of which have a
register, and nothing else has one; the frame has one more cell for each variable on record; arity
and labels are as they were; and all rounds but the last are at most as many as the variables on
record. -/
theorem allocation_accounts (hread : Program.read text = .ok program)
    (hallocate : (program.allocate config).result = .ok allocation) :
    allocation.program.entry = program.entry ∧
    allocation.program.functions.map Function.name = program.functions.map Function.name ∧
    (program.functions.map Function.name).Nodup ∧
    allocation.functions.length = program.functions.length ∧
    ∀ (i : Nat) (function : Function), program.functions[i]? = some function → ∃ a issued,
      allocation.functions[i]? = some a ∧ (program.temporaries config)[i]? = some issued ∧
      Allocated config (NameSupply.ofTaken config.stem program.vars) program.functions function a
        issued ∧
      Accounts function a.function a.spilled issued ∧
      (a.registers.map Prod.fst).Nodup ∧
      (∀ name, name ∈ a.registers.map Prod.fst ↔ IsVariableOf a.function.vars name) ∧
      0 < a.rounds ∧ a.rounds - 1 ≤ a.spilled.length := by
  obtain ⟨hentry, hlength, hfunctions⟩ := allocate_ok hallocate
  refine ⟨hentry, map_name_allocated hread hallocate, nodup_names hread, hlength, ?_⟩
  intro i function hi
  obtain ⟨a, issued, ha, hissued, hallocated⟩ := hfunctions i function hi
  exact ⟨a, issued, ha, hissued, hallocated, accounts_of_allocated hread hallocated⟩

/-- A program whose function uses a cell and keeps one of two variables across a call in a loop. -/
def resuming : Program :=
  ⟨"resuming", [.ofCode "resuming" 0 [.assign (.memory (.register "rsp") 0) (.number 5),
    .assign (.var "x") (.number 1), .label "again", .call (.code (.function "resuming")) 0,
    .assign (.var "y") (.var "x"), .jumpIf .less (.var "y") (.number 3) "again",
    .assign (.register "rax") (.var "y"), .ret]]⟩

/-- Its allocation in two rounds, after which the variable that was kept is in a cell. -/
def resumingAllocation : FunctionAllocation where
  function := .ofCode "resuming" 0 [.assign (.memory (.register "rsp") 0) (.number 5),
    .assign (.var "S0") (.number 1), .assign (Item.slot 8) (.var "S0"), .label "again",
    .call (.code (.function "resuming")) 0, .assign (.var "S1") (Item.slot 8),
    .assign (.var "y") (.var "S1"), .jumpIf .less (.var "y") (.number 3) "again",
    .assign (.register "rax") (.var "y"), .ret]
  registers := [("%S0", "rdi"), ("%S1", "rdi"), ("%y", "rdi")]
  rounds := 2
  spilled := ["%x"]

theorem resuming_allocation_accounts :
    (resuming.allocate ⟨0, "%S", .firstSeen⟩).result = .ok ⟨"resuming", [resumingAllocation]⟩ ∧
      ∃ function ∈ resuming.functions,
        Accounts function resumingAllocation.function ["%x"] ["%S0", "%S1"] ∧
        ∀ name, name ∈ ["%S0", "%S1", "%y"] ↔
          IsVariableOf resumingAllocation.function.vars name := by
  have hread : Program.read ("(@resuming (@resuming 0 (mem rsp 0 <- 5) (%x <- 1) :again " ++
      "(call @resuming 0) (%y <- %x) (cjump %y < 3 :again) (rax <- %y) (return)))").toList =
      .ok resuming := by decide +kernel
  have hallocate : (resuming.allocate ⟨0, "%S", .firstSeen⟩).result =
      .ok ⟨"resuming", [resumingAllocation]⟩ := by decide +kernel
  have hissued : resuming.temporaries ⟨0, "%S", .firstSeen⟩ = [["%S0", "%S1"]] := by
    decide +kernel
  obtain ⟨-, -, -, -, hfunctions⟩ := allocation_accounts hread hallocate
  obtain ⟨a, issued, ha, htemporaries, -, haccounts, -, hkeys, -⟩ := hfunctions 0 _ rfl
  obtain rfl := Option.some_inj.1 ha
  rw [hissued] at htemporaries
  obtain rfl := Option.some_inj.1 htemporaries
  exact ⟨hallocate, _, List.mem_singleton.2 rfl, haccounts, hkeys⟩

end Program

end RegisterColouring
