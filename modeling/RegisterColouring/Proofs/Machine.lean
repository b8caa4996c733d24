/-
**Machines that run the code of a function.**

A machine has a store of named values and a hidden state.  An instruction sees the values of the
names that it reads, in order, and the hidden state; from these it makes a value for each name that
it overwrites, a new hidden state and the number of the successor to go to.  A machine stops when
there is no successor of that number.  How instructions act is left open.  The names may be kept in
other places: then every name that an instruction reads or writes is replaced by its place.

Main definitions:

* `RegisterColouring.Outcome`, `RegisterColouring.Action` — how instructions act;
* `RegisterColouring.Configuration` — a machine at a moment;
* `RegisterColouring.Liveness.step`, `RegisterColouring.Liveness.run` — one step, and many.

Main results:

* `RegisterColouring.Liveness.step_eq` — what a step does;
* `RegisterColouring.Liveness.flow_of_successor` — steps follow the flow of control;
* `RegisterColouring.Liveness.run_add` — runs compose.
-/

import Mathlib.Logic.Function.Basic
import RegisterColouring.Proofs.LiveNames

set_option autoImplicit false

namespace RegisterColouring

/-- What an instruction makes: values for the names that it overwrites, a new hidden state, and the
number of the successor to go to. -/
structure Outcome (Value Hidden : Type) where
  value : Name → Value
  hidden : Hidden
  choice : Nat

/-- How the instruction at each position acts on the values that it reads and the hidden state. -/
def Action (Value Hidden : Type) : Type :=
  Nat → Instruction → List Value → Hidden → Outcome Value Hidden

/-- A machine at a moment; one that has stopped has no position. -/
structure Configuration (Value Hidden : Type) where
  position : Option Nat
  store : Name → Value
  hidden : Hidden

variable {Value Hidden : Type}

/-! ### Stores -/

/-- A store after some names have been overwritten, each in its place. -/
def overwrite (place : Name → Name) (value : Name → Value) :
    List Name → (Name → Value) → Name → Value
  | [], store => store
  | name :: names, store =>
    overwrite place value names (Function.update store (place name) (value name))

section Stores

variable {place : Name → Name} {value : Name → Value} {names : List Name} {store : Name → Value}

theorem overwrite_of_ne {location : Name} (h : ∀ name ∈ names, place name ≠ location) :
    overwrite place value names store location = store location := by
  induction names generalizing store with
  | nil => rfl
  | cons name names ih =>
      rw [overwrite, ih fun n hn => h n (List.mem_cons_of_mem _ hn)]
      exact Function.update_of_ne (Ne.symm (h name (List.mem_cons_self ..))) _ _

/-- A name that is overwritten, and alone in its place, has its new value there. -/
theorem overwrite_of_mem {name : Name} (hmem : name ∈ names)
    (halone : ∀ other ∈ names, other ≠ name → place other ≠ place name) :
    overwrite place value names store (place name) = value name := by
  induction names generalizing store with
  | nil => simp at hmem
  | cons first rest ih =>
      rw [overwrite]
      have hrest : ∀ other ∈ rest, other ≠ name → place other ≠ place name :=
        fun other h => halone other (List.mem_cons_of_mem _ h)
      by_cases hin : name ∈ rest
      · exact ih hin hrest
      · have hfirst : name = first := (List.mem_cons.1 hmem).resolve_right hin
        rw [overwrite_of_ne, hfirst, Function.update_self]
        intro other hother
        apply hrest other hother
        rintro rfl
        exact hin hother

theorem overwrite_id_of_mem {name : Name} (hmem : name ∈ names) :
    overwrite id value names store name = value name := by
  have h : overwrite id value names store (id name) = value name :=
    overwrite_of_mem hmem fun _ _ hne => hne
  exact h

theorem overwrite_id_of_not_mem {name : Name} (hmem : name ∉ names) :
    overwrite id value names store name = store name := by
  apply overwrite_of_ne
  rintro other hother rfl
  exact hmem hother

end Stores

/-! ### Steps and runs -/

namespace Liveness

/-- The successors of the instruction at a position. -/
def successorsAt (result : Liveness) (i : Nat) : List Nat :=
  (result.points[i]?.map Point.successors).getD []

/-- **One step of a machine**, with every name replaced by its place. -/
def step (result : Liveness) (act : Action Value Hidden) (place : Name → Name)
    (machine : Configuration Value Hidden) : Configuration Value Hidden :=
  match machine.position with
  | none => machine
  | some i =>
    match result.function.code[i]? with
    | none => { machine with position := none }
    | some instruction =>
      let read := instruction.gen.map fun name => machine.store (place name)
      let outcome := act i instruction read machine.hidden
      ⟨(result.successorsAt i)[outcome.choice]?,
        overwrite place outcome.value instruction.kill machine.store, outcome.hidden⟩

/-- **A number of steps of a machine.** -/
def run (result : Liveness) (act : Action Value Hidden) (place : Name → Name) :
    Nat → Configuration Value Hidden → Configuration Value Hidden
  | 0, machine => machine
  | n + 1, machine => run result act place n (step result act place machine)

variable {function : Function} {result : Liveness} {act : Action Value Hidden}
  {place : Name → Name} {i : Nat} {instruction : Instruction} {store : Name → Value}
  {hidden : Hidden}

@[simp] theorem step_stopped :
    step result act place ⟨none, store, hidden⟩ = ⟨none, store, hidden⟩ := rfl

theorem step_outside (hi : result.function.code[i]? = none) :
    step result act place ⟨some i, store, hidden⟩ = ⟨none, store, hidden⟩ := by
  simp only [step, hi]

/-- What a step does at an instruction that makes a known outcome. -/
theorem step_eq {outcome : Outcome Value Hidden} (hi : result.function.code[i]? = some instruction)
    (houtcome :
      act i instruction (instruction.gen.map fun name => store (place name)) hidden = outcome) :
    step result act place ⟨some i, store, hidden⟩ =
      ⟨(result.successorsAt i)[outcome.choice]?,
        overwrite place outcome.value instruction.kill store, outcome.hidden⟩ := by
  simp only [step, hi, houtcome]

theorem run_add (m n : Nat) (machine : Configuration Value Hidden) :
    run result act place (m + n) machine =
      run result act place n (run result act place m machine) := by
  induction m generalizing machine with
  | zero => rw [Nat.zero_add, run]
  | succ m ih => rw [Nat.succ_add, run, run, ih]

theorem run_succ (n : Nat) (machine : Configuration Value Hidden) :
    run result act place (n + 1) machine =
      step result act place (run result act place n machine) :=
  run_add n 1 machine

theorem Analysed.successorsAt (h : result.Analysed function)
    (hi : function.code[i]? = some instruction) :
    Function.successorsOf result.labels function.code.length i instruction =
      .ok (result.successorsAt i) := by
  have hlt := (List.getElem?_eq_some_iff.1 hi).1
  have hpoint := List.getElem?_eq_getElem (h.describes.length_eq ▸ hlt)
  rw [Liveness.successorsAt, hpoint]
  exact h.successors i _ instruction hpoint hi

/-- **Steps follow the flow of control.** -/
theorem Analysed.flow_of_successor (h : result.Analysed function)
    (hi : function.code[i]? = some instruction) {choice j : Nat}
    (hj : (result.successorsAt i)[choice]? = some j) : Flow function.code i j :=
  (Function.mem_successors_iff h.labels hi (h.successorsAt hi)).1 (List.mem_of_getElem? hj)

end Liveness

end RegisterColouring
