/-
**Allocation always ends.**

Every round that does not end the allocation of a function takes one of its variables out of the
code, and no round brings one back.  So a function with `n` variables is allocated in at most `n +
1` rounds, and without a limit on the rounds none is ever reached.

Main definitions:

* `RegisterColouring.Allocation.remaining` — how many variables of a function are still in the code.

Main results:

* `RegisterColouring.Allocation.Sound.remaining_lt` — a round leaves fewer of them;
* `RegisterColouring.Allocation.rounds_bound` — how many rounds there can be;
* `RegisterColouring.Program.allocation_ends` — **allocation always ends**, and how.
-/

import RegisterColouring.Proofs.Rounds

set_option autoImplicit false

namespace RegisterColouring

/-- The first supply for a program that is read avoids the variables of its functions. -/
theorem Program.avoids_ofTaken {text : List Char} {program : Program}
    (hread : Program.read text = .ok program) (stem : String) {function : Function}
    (hmem : function ∈ program.functions) {v : String} (hv : v ∈ function.vars) :
    (NameSupply.ofTaken stem program.vars).Avoids v := by
  have hparsed : function.IsParsed := Or.inr (Or.inl ⟨text, program, hread, hmem⟩)
  have hprogram : v ∈ program.vars := by
    rw [Program.vars, List.mem_eraseDups]
    exact List.mem_flatMap.2 ⟨function, hmem, hv⟩
  left
  have htaken : Name.unsigiled v ∈ (NameSupply.ofTaken stem program.vars).taken :=
    List.mem_map_of_mem hprogram
  rwa [hparsed.unsigiled hv] at htaken

namespace Allocation

variable {config : AllocationConfig} {function : Function} {names : NameSupply} {p q : Progress}

/-- How many variables of a function are still in the code. -/
def remaining (function : Function) (p : Progress) : Nat :=
  (function.vars.filter p.function.vars.contains).length

/-- **A round leaves fewer variables of the function in the code.** -/
theorem Sound.remaining_lt (h : Sound function names p) (hround : Round config p q)
    (havoids : ∀ v ∈ function.vars, names.Avoids v) :
    remaining function q < remaining function p := by
  obtain ⟨-, -, ⟨v, hv, hvp, hvq⟩, hback⟩ := h.round hround havoids
  have hfilter : function.vars.filter q.function.vars.contains =
      (function.vars.filter p.function.vars.contains).filter q.function.vars.contains := by
    rw [List.filter_filter]
    apply List.filter_congr
    intro w hw
    have hwback := hback w hw
    by_cases hwq : w ∈ q.function.vars
    · simp [hwq, hwback hwq]
    · simp [hwq]
  rw [remaining, remaining, hfilter, List.length_filter_lt_length_iff_exists]
  exact ⟨v, List.mem_filter.2 ⟨hv, by simpa using hvp⟩, by simpa using hvq⟩

/-- **How many rounds there can be.** -/
theorem rounds_bound {n : Nat} (hregular : function.Regular)
    (havoids : ∀ v ∈ function.vars, names.Avoids v)
    (h : Rounds config n (Progress.start function names) p) :
    remaining function p + n ≤ function.vars.length := by
  refine (sound_start hregular havoids).rounds_induction havoids h
    (motive := fun n p => remaining function p + n ≤ function.vars.length)
    (List.length_filter_le _ _) ?_
  intro n p q hsound hround hle
  have hlt := hsound.remaining_lt hround havoids
  omega

/-- After a round that spills the function can be analysed. -/
theorem Rounds.analysed {n : Nat} (hregular : function.Regular)
    (havoids : ∀ v ∈ function.vars, names.Avoids v)
    (h : Rounds config n (Progress.start function names) p) (hpos : 0 < n) :
    ∃ result, Liveness.analyse p.function = .ok result := by
  cases h with
  | refl => omega
  | tail hrounds hround =>
      have hsound := (sound_start hregular havoids).rounds hrounds havoids
      exact (hsound.round hround havoids).2.1

/-- **How the allocation of a function ends**: with registers, on labels in the first round, or on a
colouring in a later one. -/
theorem ends_cases {k : Nat} {result : Except AllocationError FunctionAllocation}
    (hregular : function.Regular) (havoids : ∀ v ∈ function.vars, names.Avoids v)
    (hrounds : Rounds config k (Progress.start function names) p) (hend : p.Ends config result) :
    (∃ allocation, result = .ok allocation ∧ allocation.rounds = k + 1) ∨
      (k = 0 ∧ ∃ cause, result = .error (.analysis 1 cause) ∧
        ((∃ index label, cause = .duplicateLabel function.name index label) ∨
          ∃ index label, cause = .unknownLabel function.name index label)) ∨
      (0 < k ∧ ∃ nodes, result =
        .error (.colouring (k + 1) (.unsatisfiable function.name nodes))) := by
  have hcount : p.rounds = k := hrounds.rounds_eq.trans (Nat.zero_add k)
  rcases hend with ⟨e, herror, rfl⟩ | ⟨attempt, assigned, -, -, rfl⟩
  · right
    have hsound := (sound_start hregular havoids).rounds hrounds havoids
    rcases hsound.attempt_error herror with ⟨cause, hcause, rfl, hlabel⟩ | ⟨⟨nodes, rfl⟩, hstuck⟩
    · left
      rcases Nat.eq_zero_or_pos k with rfl | hpos
      · exact ⟨rfl, cause, by rw [hcount], hlabel⟩
      · obtain ⟨liveness, hliveness⟩ := hrounds.analysed hregular havoids hpos
        rw [hliveness] at hcause
        simp at hcause
    · right
      refine ⟨?_, nodes, by rw [hcount]⟩
      by_contra hzero
      obtain rfl : k = 0 := by omega
      cases hrounds
      exact hstuck rfl
  · left
    exact ⟨_, rfl, by rw [hcount]⟩

/-- Without a limit the allocation of a function ends in one of its rounds. -/
theorem exists_ends (hregular : function.Regular) (havoids : ∀ v ∈ function.vars, names.Avoids v)
    (hlimit : config.maxRounds = 0) :
    ∃ k last, k ≤ function.vars.length ∧ Rounds config k (Progress.start function names) last ∧
      last.Ends config (function.allocate names config).result := by
  obtain ⟨-, k, hrounds, hend⟩ :=
    runFrom_last config (budget config function) (Progress.start function names)
  have hbound := rounds_bound hregular havoids hrounds
  have hbudget : budget config function = function.vars.length + 1 := if_pos hlimit
  obtain ⟨-, hend⟩ := hend.resolve_right fun hexhausted => by omega
  exact ⟨k, _, by omega, hrounds, hend⟩

end Allocation

theorem Program.regular_of_called {text : List Char} {program : Program} {config : AllocationConfig}
    {function : Function} {names names' : NameSupply} (hread : Program.read text = .ok program)
    (hcalled : Allocation.Called config names program.functions function names') :
    function.Regular :=
  Function.IsParsed.regular (Or.inr (Or.inl ⟨text, program, hread, hcalled.mem⟩))

/-- A supply with which a function of a program is allocated avoids its variables. -/
theorem Program.avoids_of_called {text : List Char} {program : Program} {config : AllocationConfig}
    {function : Function} {names : NameSupply} (hread : Program.read text = .ok program)
    (hcalled : Allocation.Called config (NameSupply.ofTaken config.stem program.vars)
      program.functions function names) {v : String} (hv : v ∈ function.vars) : names.Avoids v := by
  have hregular : ∀ f ∈ program.functions, f.Regular := fun f hf =>
    Function.IsParsed.regular (Or.inr (Or.inl ⟨text, program, hread, hf⟩))
  exact hcalled.avoids hregular
    (fun f hf w hw => Program.avoids_ofTaken hread config.stem hf hw) v
    (Program.avoids_ofTaken hread config.stem hcalled.mem hv)

open Allocation (Progress Round Rounds Called)

/-- **Allocation always ends.**  For every program that is read and no limit on the rounds, the
allocation of each of its functions ends after at most as many rounds that spill as the function has
variables, and a last one: with registers, with the error of an analysis of labels, only ever in the
first round, or with names that cannot be coloured, never in the first round.  Every round that does
not end it takes a variable of the function out of the code, and none comes back. -/
theorem Program.allocation_ends {text : List Char} {program : Program} {config : AllocationConfig}
    {function : Function} {names : NameSupply} (hread : Program.read text = .ok program)
    (hlimit : config.maxRounds = 0)
    (hcalled : Called config (NameSupply.ofTaken config.stem program.vars) program.functions
      function names) :
    (∃ k last, k ≤ function.vars.length ∧ Rounds config k (Progress.start function names) last ∧
      last.Ends config (function.allocate names config).result ∧
      ((∃ allocation, (function.allocate names config).result = .ok allocation ∧
          allocation.rounds = k + 1) ∨
        (k = 0 ∧ ∃ cause, (function.allocate names config).result = .error (.analysis 1 cause) ∧
          ((∃ index label, cause = .duplicateLabel function.name index label) ∨
            ∃ index label, cause = .unknownLabel function.name index label)) ∨
        (0 < k ∧ ∃ nodes, (function.allocate names config).result =
          .error (.colouring (k + 1) (.unsatisfiable function.name nodes))))) ∧
    ∀ n p q, Rounds config n (Progress.start function names) p → Round config p q →
      (∃ v ∈ function.vars, v ∈ p.function.vars ∧ v ∉ q.function.vars) ∧
      ∀ v ∈ function.vars, v ∈ q.function.vars → v ∈ p.function.vars := by
  have hregular : function.Regular :=
    Function.IsParsed.regular (Or.inr (Or.inl ⟨text, program, hread, hcalled.mem⟩))
  have havoids : ∀ v ∈ function.vars, names.Avoids v := fun v hv =>
    Program.avoids_of_called hread hcalled hv
  constructor
  · obtain ⟨k, last, hk, hrounds, hend⟩ := Allocation.exists_ends hregular havoids hlimit
    exact ⟨k, last, hk, hrounds, hend, Allocation.ends_cases hregular havoids hrounds hend⟩
  · intro n p q hrounds hround
    have hsound := (Allocation.sound_start hregular havoids).rounds hrounds havoids
    exact (hsound.round hround havoids).2.2

/-- A program whose function keeps a variable across a call. -/
def calling : Program :=
  ⟨"calling", [.ofCode "calling" 0 [.assign (.var "x") (.number 1),
    .call (.code (.function "calling")) 0, .assign (.register "rax") (.var "x"), .ret]]⟩

theorem calling_allocation_ends :
    ∃ function ∈ calling.functions, ∃ k last, k ≤ 1 ∧
      Rounds ⟨0, "%S", .firstSeen⟩ k
        (Progress.start function (NameSupply.ofTaken "%S" calling.vars)) last ∧
      last.Ends ⟨0, "%S", .firstSeen⟩
        (function.allocate (NameSupply.ofTaken "%S" calling.vars)
          ⟨0, "%S", .firstSeen⟩).result := by
  have hread : Program.read ("(@calling (@calling 0 (%x <- 1) (call @calling 0) (rax <- %x) " ++
      "(return)))").toList = .ok calling := rfl
  have hlimit : (⟨0, "%S", .firstSeen⟩ : AllocationConfig).maxRounds = 0 := rfl
  obtain ⟨⟨k, last, hk, hrounds, hend, -⟩, -⟩ :=
    Program.allocation_ends hread hlimit (Called.here _ _ [])
  exact ⟨_, List.mem_singleton.2 rfl, k, last, hk, hrounds, hend⟩

end RegisterColouring
