/-
**Temporaries are fresh in the whole program.**

One supply of names goes through all rounds of all functions.  The temporaries of a round are drawn
from it, so those of several rounds are, and those of several functions: they all differ, and none is
a variable of the program.  The code of an allocated function has no variables but its own and its
temporaries, so no temporary of another function occurs in it.

Main definitions:

* `RegisterColouring.Function.temporaries` — the temporaries of all rounds for a function;
* `RegisterColouring.Program.temporaries` — the temporaries for each function of a program;
* `RegisterColouring.Allocation.Allocated` — how a function of a program is allocated.

Main results:

* `RegisterColouring.Allocation.Rounds.drawn`,
  `RegisterColouring.Allocation.drawn_temporariesAll` — **temporaries are drawn from the supply**;
* `RegisterColouring.Program.allocate_ok` — each function of an allocated program is allocated;
* `RegisterColouring.Program.temporaries_fresh` — **temporaries are fresh in the whole program**.
-/

import RegisterColouring.Proofs.Outcomes
import RegisterColouring.Proofs.Termination

set_option autoImplicit false

namespace RegisterColouring

/-- **The temporaries of all rounds** of the allocation of a function, in order. -/
def Function.temporaries (function : Function) (names : NameSupply) (config : AllocationConfig) :
    List Name :=
  (Allocation.lastFrom config (Allocation.budget config function)
    (Allocation.Progress.start function names)).unspillable

namespace Allocation

/-- The temporaries for each of several functions that are allocated one after the other. -/
def temporariesAll (config : AllocationConfig) : NameSupply → List Function → List (List Name)
  | _, [] => []
  | names, function :: functions =>
    function.temporaries names config ::
      temporariesAll config (function.allocate names config).names functions

end Allocation

/-- **The temporaries for each function of a program.** -/
def Program.temporaries (program : Program) (config : AllocationConfig) : List (List Name) :=
  Allocation.temporariesAll config (NameSupply.ofTaken config.stem program.vars) program.functions

namespace Allocation

open NameSupply (Drawn)

variable {config : AllocationConfig} {names : NameSupply} {function : Function}
  {functions : List Function}

/-! ### Names that are drawn -/

/-- The temporaries of a round are drawn from the supply. -/
theorem Round.drawn {p q : Progress} (h : Round config p q) :
    ∃ ts, q.unspillable = p.unspillable ++ ts.map Name.ofVariable ∧ Drawn p.names q.names ts := by
  obtain ⟨attempt, spills, event, -, -, rfl⟩ := h
  exact ⟨_, congrArg (p.unspillable ++ ·) (p.function.temporaries_spill spills p.names),
    p.function.drawn_spill spills p.names⟩

/-- **The temporaries of all rounds are drawn from the supply.** -/
theorem Rounds.drawn {n : Nat} {p q : Progress} (h : Rounds config n p q) :
    ∃ ts, q.unspillable = p.unspillable ++ ts.map Name.ofVariable ∧ Drawn p.names q.names ts := by
  induction h with
  | refl p => exact ⟨[], by simp, Drawn.nil p.names⟩
  | tail _ hround ih =>
      obtain ⟨ts, hts, hdrawn⟩ := ih
      obtain ⟨us, hus, hdrawn'⟩ := hround.drawn
      exact ⟨ts ++ us, by rw [hus, hts, List.map_append, List.append_assoc],
        hdrawn.append hdrawn'⟩

theorem drawn_temporaries (config : AllocationConfig) (names : NameSupply) (function : Function) :
    ∃ ts, function.temporaries names config = ts.map Name.ofVariable ∧
      Drawn names (function.allocate names config).names ts := by
  obtain ⟨hnames, k, hrounds, -⟩ :=
    runFrom_last config (budget config function) (Progress.start function names)
  rw [Function.allocate, ← Progress.start, hnames]
  exact hrounds.drawn

/-- **The temporaries of all functions are drawn from the supply.** -/
theorem drawn_temporariesAll (config : AllocationConfig) (names : NameSupply)
    (functions : List Function) :
    ∃ ts after, (temporariesAll config names functions).flatten = ts.map Name.ofVariable ∧
      Drawn names after ts := by
  induction functions generalizing names with
  | nil => exact ⟨[], names, rfl, Drawn.nil names⟩
  | cons function functions ih =>
      obtain ⟨ts, hts, hdrawn⟩ := drawn_temporaries config names function
      obtain ⟨us, after, hus, hdrawn'⟩ := ih (function.allocate names config).names
      refine ⟨ts ++ us, after, ?_, hdrawn.append hdrawn'⟩
      rw [temporariesAll, List.flatten_cons, hts, hus, List.map_append]

/-! ### Allocation that succeeds -/

/-- **How a function is allocated**, when functions are allocated one after the other: with some
supply of names, in rounds that spill and introduce temporaries, and a last one that gives
registers. -/
def Allocated (config : AllocationConfig) (names : NameSupply) (functions : List Function)
    (function : Function) (allocation : FunctionAllocation) (issued : List Name) : Prop :=
  ∃ names' k last attempt, Called config names functions function names' ∧
    Rounds config k (Progress.start function names') last ∧ last.attempt config = .ok attempt ∧
    attempt.assignment = .registers allocation.registers ∧
    allocation = ⟨last.function, allocation.registers, k + 1, last.spilled⟩ ∧
    issued = last.unspillable

theorem Called.allocated {names' : NameSupply} {allocation : FunctionAllocation}
    (hcalled : Called config names functions function names')
    (h : (function.allocate names' config).result = .ok allocation) :
    Allocated config names functions function allocation (function.temporaries names' config) := by
  obtain ⟨-, k, hrounds, ⟨-, hend⟩ | ⟨-, hlimit⟩⟩ :=
    runFrom_last config (budget config function) (Progress.start function names')
  · rcases hend with ⟨e, -, herror⟩ | ⟨attempt, assigned, hattempt, hassigned, hok⟩
    · exact absurd (h.symm.trans herror) (by simp)
    · obtain rfl := Except.ok.inj (h.symm.trans hok)
      refine ⟨names', k, _, attempt, hcalled, hrounds, hattempt, hassigned, ?_, rfl⟩
      rw [hrounds.rounds_eq]
      simp [Progress.start]
  · exact absurd (h.symm.trans hlimit) (by simp)

theorem Allocated.later {first : Function} {done allocation : FunctionAllocation}
    {issued : List Name} (hfirst : (first.allocate names config).result = .ok done)
    (h : Allocated config (first.allocate names config).names functions function allocation
      issued) : Allocated config names (first :: functions) function allocation issued := by
  obtain ⟨names', k, last, attempt, hcalled, hrest⟩ := h
  exact ⟨names', k, last, attempt, Called.later hfirst hcalled, hrest⟩

/-- **Each of several functions is allocated**, if none fails. -/
theorem runAll_ok {log : List Event} {allocations : List FunctionAllocation}
    (h : (runAll config names log functions).result = .ok allocations) :
    allocations.length = functions.length ∧
      ∀ (i : Nat) (function : Function), functions[i]? = some function → ∃ allocation issued,
        allocations[i]? = some allocation ∧
        (temporariesAll config names functions)[i]? = some issued ∧
        Allocated config names functions function allocation issued := by
  induction functions generalizing names log allocations with
  | nil =>
      obtain rfl := Except.ok.inj h
      simp
  | cons first rest ih =>
      unfold runAll at h
      dsimp only at h
      split at h
      · simp at h
      · next done hfirst =>
        split at h
        · simp at h
        · next others hothers =>
          obtain rfl := Except.ok.inj h
          obtain ⟨hlength, hrest⟩ := ih hothers
          refine ⟨by rw [List.length_cons, List.length_cons, hlength], ?_⟩
          intro i function hi
          cases i with
          | zero =>
              obtain rfl := Option.some_inj.1 hi
              exact ⟨done, _, rfl, rfl, (Called.here _ _ _).allocated hfirst⟩
          | succ i =>
              obtain ⟨allocation, issued, hat, hissued, hallocated⟩ := hrest i function hi
              exact ⟨allocation, issued, hat, hissued, hallocated.later hfirst⟩

theorem length_temporariesAll (config : AllocationConfig) (names : NameSupply)
    (functions : List Function) :
    (temporariesAll config names functions).length = functions.length := by
  induction functions generalizing names with
  | nil => rfl
  | cons function functions ih => rw [temporariesAll, List.length_cons, List.length_cons, ih]

end Allocation

namespace Program

variable {text : List Char} {program : Program} {config : AllocationConfig}
  {allocation : ProgramAllocation}

open Allocation (Allocated)

/-- **Each function of an allocated program is allocated**, in the same order. -/
theorem allocate_ok (h : (program.allocate config).result = .ok allocation) :
    allocation.entry = program.entry ∧ allocation.functions.length = program.functions.length ∧
      ∀ (i : Nat) (function : Function), program.functions[i]? = some function → ∃ a issued,
        allocation.functions[i]? = some a ∧ (program.temporaries config)[i]? = some issued ∧
        Allocated config (NameSupply.ofTaken config.stem program.vars) program.functions function a
          issued := by
  unfold Program.allocate at h
  dsimp only at h
  split at h
  · simp at h
  · next allocations hall =>
    obtain rfl := Except.ok.inj h
    exact ⟨rfl, Allocation.runAll_ok hall⟩

theorem length_temporaries (program : Program) (config : AllocationConfig) :
    (program.temporaries config).length = program.functions.length :=
  Allocation.length_temporariesAll config _ program.functions

theorem nodup_temporaries (program : Program) (config : AllocationConfig) :
    (program.temporaries config).flatten.Nodup := by
  obtain ⟨ts, after, hts, hdrawn⟩ := Allocation.drawn_temporariesAll config
    (NameSupply.ofTaken config.stem program.vars) program.functions
  rw [temporaries, hts]
  exact hdrawn.nodup.map fun v w heq => Name.ofVariable_inj.1 heq

/-- No temporary is a variable of the program. -/
theorem not_isVariableOf_temporary (hread : Program.read text = .ok program) {t : Name}
    (ht : t ∈ (program.temporaries config).flatten) : ¬ IsVariableOf program.vars t := by
  obtain ⟨ts, after, hts, hdrawn⟩ := Allocation.drawn_temporariesAll config
    (NameSupply.ofTaken config.stem program.vars) program.functions
  rw [temporaries, hts] at ht
  obtain ⟨v, hv, rfl⟩ := List.mem_map.1 ht
  rintro ⟨w, hw, heq⟩
  obtain rfl := Name.ofVariable_inj.1 heq
  rw [vars, List.mem_eraseDups] at hw
  obtain ⟨function, hmem, hw⟩ := List.mem_flatMap.1 hw
  exact hdrawn.fresh v hv (avoids_ofTaken hread config.stem hmem hw)

/-- **The code of an allocated function** has no variables but those of the function and the
temporaries for it. -/
theorem isVariableOf_allocated (hread : Program.read text = .ok program) {function : Function}
    {a : FunctionAllocation} {issued : List Name}
    (hallocated : Allocated config (NameSupply.ofTaken config.stem program.vars) program.functions
      function a issued) {name : Name} (hname : IsVariableOf a.function.vars name) :
    IsVariableOf program.vars name ∨ name ∈ issued := by
  obtain ⟨names, k, last, attempt, hcalled, hrounds, -, -, ha, rfl⟩ := hallocated
  have hregular : function.Regular := regular_of_called hread hcalled
  have havoids : ∀ v ∈ function.vars, names.Avoids v := fun v hv =>
    avoids_of_called hread hcalled hv
  have hsound := (Allocation.sound_start hregular havoids).rounds hrounds havoids
  rw [ha] at hname
  obtain ⟨v, hv, rfl⟩ := hname
  refine (hsound.vars v hv).imp_left ?_
  intro hv
  refine ⟨v, ?_, rfl⟩
  rw [vars, List.mem_eraseDups]
  exact List.mem_flatMap.2 ⟨function, hcalled.mem, hv⟩

/-- **Temporaries are fresh in the whole program.**  Take a program that is read and any
configuration with which it is allocated.  Each function has its list of temporaries: those that the
rounds of its allocation have introduced.  The temporaries of all functions differ, none of them is a
variable of the program, and none that is introduced for one function occurs in the code of
another. -/
theorem temporaries_fresh (hread : Program.read text = .ok program)
    (hallocate : (program.allocate config).result = .ok allocation) :
    let temporaries := program.temporaries config
    (temporaries.length = program.functions.length ∧
      ∀ (i : Nat) (function : Function), program.functions[i]? = some function → ∃ a issued,
        allocation.functions[i]? = some a ∧ temporaries[i]? = some issued ∧
        Allocated config (NameSupply.ofTaken config.stem program.vars) program.functions function a
          issued) ∧
    temporaries.flatten.Nodup ∧
    (∀ t ∈ temporaries.flatten, ¬ IsVariableOf program.vars t) ∧
    ∀ (i j : Nat) (issued : List Name) (output : Function), temporaries[i]? = some issued →
      allocation.program.functions[j]? = some output → i ≠ j →
      ∀ t ∈ issued, ¬ IsVariableOf output.vars t := by
  intro temporaries
  have hnodup := program.nodup_temporaries config
  obtain ⟨-, hlength, hfunctions⟩ := allocate_ok hallocate
  refine ⟨⟨program.length_temporaries config, hfunctions⟩, hnodup,
    fun t ht => not_isVariableOf_temporary hread ht, ?_⟩
  intro i j issued output hissued houtput hij t ht hvariable
  rw [ProgramAllocation.program, List.getElem?_map, Option.map_eq_some_iff] at houtput
  obtain ⟨a, ha, rfl⟩ := houtput
  have hj : j < program.functions.length := hlength ▸ (List.getElem?_eq_some_iff.1 ha).1
  obtain ⟨a', others, ha', hothers, hallocated⟩ := hfunctions j _ (List.getElem?_eq_getElem hj)
  obtain rfl := Option.some_inj.1 (ha.symm.trans ha')
  rcases isVariableOf_allocated hread hallocated hvariable with hprogram | hother
  · exact not_isVariableOf_temporary hread
      (List.mem_flatten_of_mem (List.mem_of_getElem? hissued) ht) hprogram
  · rw [← List.map_id (program.temporaries config).flatten] at hnodup
    exact hij (block_of_nodup hnodup hissued hothers ht hother rfl)

/-- A program whose two functions keep a variable across a call, one of them named like a
temporary. -/
def colliding : Program :=
  ⟨"first", [.ofCode "first" 0 [.assign (.var "S0") (.number 1),
      .call (.code (.function "second")) 0, .assign (.register "rax") (.var "S0"), .ret],
    .ofCode "second" 0 [.assign (.var "x") (.number 2), .call (.code (.function "first")) 0,
      .assign (.register "rax") (.var "x"), .ret]]⟩

/-- The name of the variable is left out, and the second function goes on where the first one
stopped. -/
theorem colliding_temporaries_fresh :
    ∃ allocation, (colliding.allocate ⟨0, "%S", .firstSeen⟩).result = .ok allocation ∧
      colliding.temporaries ⟨0, "%S", .firstSeen⟩ = [["%S1", "%S2"], ["%S3", "%S4"]] ∧
      (colliding.temporaries ⟨0, "%S", .firstSeen⟩).flatten.Nodup ∧
      ¬ IsVariableOf colliding.vars "%S1" ∧
      ∀ output, allocation.program.functions[1]? = some output →
        ¬ IsVariableOf output.vars "%S1" := by
  have hread : Program.read ("(@first (@first 0 (%S0 <- 1) (call @second 0) (rax <- %S0) " ++
      "(return)) (@second 0 (%x <- 2) (call @first 0) (rax <- %x) (return)))").toList =
      .ok colliding := by decide +kernel
  have hallocate : (colliding.allocate ⟨0, "%S", .firstSeen⟩).result = .ok _ := rfl
  have hissued : colliding.temporaries ⟨0, "%S", .firstSeen⟩ =
      [["%S1", "%S2"], ["%S3", "%S4"]] := by decide +kernel
  obtain ⟨-, hnodup, hvars, hother⟩ := temporaries_fresh hread hallocate
  refine ⟨_, hallocate, hissued, hnodup, hvars _ (by rw [hissued]; simp), ?_⟩
  intro output houtput
  exact hother 0 1 _ output (by rw [hissued]; rfl) houtput (by decide) _ (by simp)

end Program

end RegisterColouring
