/-
**A limit on the rounds only cuts runs off.**

Without a limit the allocation of a function ends in some round, whatever supply of names it draws
from: every round that spills takes away a variable that could be spilled, and what it adds are
temporaries, which cannot.  This holds even if temporaries have the names of variables of the
function, so nothing is asked of the supply.

With a limit of that many rounds or more the run is the same.  With a smaller one it goes the same
way for as many rounds as the limit allows, and ends there with the error that says so.

Main definitions:

* `RegisterColouring.Allocation.Progress.next?` — what has been done after one more round that
  spills;
* `RegisterColouring.Allocation.Leads` — the way of a run from round to round;
* `RegisterColouring.Allocation.Kept` — what is known between rounds, for any supply of names;
* `RegisterColouring.Allocation.spillable` — how many variables of a function can still be spilled.

Main results:

* `RegisterColouring.Allocation.Kept.round` — **a round leaves fewer variables that can be spilled**;
* `RegisterColouring.Allocation.exists_last` — without a limit a run has a last round;
* `RegisterColouring.Allocation.Leads.runFrom_eq` — a run goes its way;
* `RegisterColouring.Function.limit_only_cuts_off` — **a limit on the rounds only cuts runs off**.
-/

import RegisterColouring.Proofs.Rounds
import RegisterColouring.Proofs.SpillContract

set_option autoImplicit false

namespace RegisterColouring

/-! ### Addresses in spilled code -/

namespace Spill

theorem isAddressed_expand {replacements : List Replacement} {instruction step : Instruction}
    (haddressed : instruction.isAddressed = true) (hstep : step ∈ expand replacements instruction) :
    step.isAddressed = true := by
  simp only [expand, List.mem_append, List.mem_cons, List.mem_map] at hstep
  rcases hstep with ⟨r, -, rfl⟩ | rfl | ⟨r, -, rfl⟩
  · rfl
  · rwa [Instruction.isAddressed_rename]
  · rfl

theorem isAddressed_code {targets : List Name} {state : State} {list : List Instruction}
    (haddressed : ∀ instruction ∈ list, instruction.isAddressed = true) :
    ∀ step ∈ (code targets state list).1, step.isAddressed = true := by
  induction list generalizing state with
  | nil => simp [code]
  | cons instruction rest ih =>
      rw [List.forall_mem_cons] at haddressed
      intro step hstep
      rcases List.mem_append.1 hstep with hstep | hstep
      · exact isAddressed_expand haddressed.1 hstep
      · exact ih haddressed.2 step hstep

end Spill

namespace Allocation

variable {config : AllocationConfig} {function : Function} {names : NameSupply}
  {p q last : Progress} {n : Nat}

/-! ### The last round -/

/-- **What is known between rounds, for any supply of names**: the variables in the code are
variables of the function, or cannot be spilled. -/
structure Kept (function : Function) (p : Progress) : Prop where
  addressed : ∀ instruction ∈ p.function.code, instruction.isAddressed = true
  vars : ∀ v ∈ p.function.vars, v ∈ function.vars ∨ Name.ofVariable v ∈ p.unspillable

/-- Whether a variable can still be spilled: it is in the code, and not a temporary. -/
def isSpillable (p : Progress) (v : String) : Bool :=
  p.function.vars.contains v && !p.unspillable.contains (Name.ofVariable v)

/-- How many variables of a function can still be spilled. -/
def spillable (function : Function) (p : Progress) : Nat :=
  (function.vars.filter (isSpillable p)).length

theorem isSpillable_iff {v : String} :
    isSpillable p v = true ↔ v ∈ p.function.vars ∧ Name.ofVariable v ∉ p.unspillable := by
  simp [isSpillable]

/-- What a round that spills leaves in the code: variables that it did not spill, and temporaries,
which cannot be spilled. -/
theorem vars_spill_cases (h : Kept function p) {spills : List Name} {event : Event} {v : String}
    (hv : v ∈ (p.spill spills event).function.vars) :
    (v ∈ p.function.vars ∧ Name.ofVariable v ∉ spills) ∨
      Name.ofVariable v ∈ (p.spill spills event).unspillable := by
  rcases Function.vars_spill_cases h.addressed hv with htemporary | hkept
  · right
    apply List.mem_append_right
    rw [Function.temporaries_spill]
    exact List.mem_map_of_mem htemporary
  · exact Or.inl hkept

/-- **A round leaves fewer variables that can be spilled.** -/
theorem Kept.round (h : Kept function p) (hround : Round config p q) :
    Kept function q ∧ spillable function q < spillable function p := by
  obtain ⟨attempt, spills, event, hattempt, hspills, rfl⟩ := hround
  obtain ⟨hne, hmem⟩ := spills_of_attempt hattempt hspills
  refine ⟨⟨Spill.isAddressed_code h.addressed, ?_⟩, ?_⟩
  · intro v hv
    rcases vars_spill_cases h hv with ⟨hv, -⟩ | hv
    · exact (h.vars v hv).imp_right (List.mem_append_left _)
    · exact Or.inr hv
  · -- what can be spilled afterwards could be before, and was not spilled
    have hafter : ∀ v, isSpillable (p.spill spills event) v = true →
        isSpillable p v = true ∧ Name.ofVariable v ∉ spills := by
      intro v hv
      obtain ⟨hv, hunspillable⟩ := isSpillable_iff.1 hv
      obtain ⟨hv, hkept⟩ := (vars_spill_cases h hv).resolve_right hunspillable
      exact ⟨isSpillable_iff.2 ⟨hv, fun hmem => hunspillable (List.mem_append_left _ hmem)⟩, hkept⟩
    have hfilter : function.vars.filter (isSpillable (p.spill spills event)) =
        (function.vars.filter (isSpillable p)).filter (isSpillable (p.spill spills event)) := by
      rw [List.filter_filter]
      apply List.filter_congr
      intro v _
      have hv := hafter v
      cases hspillable : isSpillable (p.spill spills event) v with
      | false => rfl
      | true => rw [(hv hspillable).1]; rfl
    obtain ⟨name, hname⟩ := List.exists_mem_of_ne_nil _ hne
    obtain ⟨hspillable, v, hv, rfl⟩ := hmem name hname
    rw [spillable, spillable, hfilter, List.length_filter_lt_length_iff_exists]
    refine ⟨v, List.mem_filter.2 ⟨(h.vars v hv).resolve_right hspillable,
      isSpillable_iff.2 ⟨hv, hspillable⟩⟩, ?_⟩
    exact fun hafterwards => (hafter v hafterwards).2 hname

/-- How many rounds can spill, for any supply of names. -/
theorem Kept.rounds (h : Kept function p) (hrounds : Rounds config n p q) :
    Kept function q ∧ spillable function q + n ≤ spillable function p := by
  induction hrounds with
  | refl => exact ⟨h, Nat.le_refl _⟩
  | tail _ hround ih =>
      obtain ⟨hkept, hle⟩ := ih h
      obtain ⟨hkept, hlt⟩ := hkept.round hround
      exact ⟨hkept, by omega⟩

/-! ### The way of a run -/

/-- What has been done after one more round, if that is a round that spills. -/
def Progress.next? (p : Progress) (config : AllocationConfig) : Option Progress :=
  match p.attempt config with
  | .ok ⟨nodes, passes, .spills spills⟩ =>
    some (p.spill spills (.round p.function.name (p.rounds + 1) nodes passes spills))
  | _ => none

/-- **The way of a run from round to round**: a number of rounds that spill. -/
inductive Leads (config : AllocationConfig) : Nat → Progress → Progress → Prop
  | here (p : Progress) : Leads config 0 p p
  | next {n : Nat} {p q last : Progress} (hnext : p.next? config = some q)
      (h : Leads config n q last) : Leads config (n + 1) p last

theorem round_of_next? (h : p.next? config = some q) : Round config p q := by
  unfold Progress.next? at h
  split at h
  · next nodes passes spills hattempt =>
    exact ⟨_, spills, _, hattempt, rfl, (Option.some.inj h).symm⟩
  · simp at h

/-- A run goes on with the next round. -/
theorem runFrom_of_next? (h : p.next? config = some q) (budget : Nat) :
    runFrom config (budget + 1) p = runFrom config budget q := by
  unfold Progress.next? at h
  split at h
  · next nodes passes spills hattempt =>
    rw [Progress.attempt] at hattempt
    rw [← Option.some.inj h]
    simp only [runFrom, hattempt]
  · simp at h

/-- A run that does not go on ends in this round. -/
theorem ends_of_next? (h : p.next? config = none) (budget : Nat) :
    p.Ends config (runFrom config (budget + 1) p).result ∧
      (runFrom config (budget + 1) p).names = p.names := by
  unfold Progress.next? at h
  cases hattempt : p.attempt config with
  | error e =>
      rw [Progress.attempt] at hattempt
      simp only [runFrom, hattempt]
      exact ⟨Or.inl ⟨e, hattempt, rfl⟩, trivial⟩
  | ok attempt =>
      obtain ⟨nodes, passes, assignment⟩ := attempt
      cases assignment with
      | registers assigned =>
          rw [Progress.attempt] at hattempt
          simp only [runFrom, hattempt]
          exact ⟨Or.inr ⟨_, assigned, hattempt, rfl, rfl⟩, trivial⟩
      | spills spills => simp [hattempt] at h

/-- How a run ends in a round depends neither on the limit nor on how many rounds are left. -/
theorem runFrom_of_end (h : p.next? config = none) (limit left right : Nat) :
    runFrom { config with maxRounds := limit } (left + 1) p = runFrom config (right + 1) p := by
  unfold Progress.next? Progress.attempt at h
  simp only [runFrom]
  split
  · rfl
  · next attempt hattempt =>
    split
    · rfl
    · next spills hspills =>
      obtain ⟨nodes, passes, assignment⟩ := attempt
      obtain rfl : assignment = .spills spills := hspills
      simp [hattempt] at h

namespace Leads

theorem rounds (h : Leads config n p q) : Rounds config n p q := by
  induction h with
  | here p => exact .refl p
  | next hnext _ ih => exact .head (round_of_next? hnext) ih

theorem name_eq (h : Leads config n p q) : q.function.name = p.function.name := by
  induction h with
  | here => rfl
  | next hnext _ ih =>
      obtain ⟨attempt, spills, event, -, -, rfl⟩ := round_of_next? hnext
      exact ih

/-- The way does not depend on the limit. -/
theorem with_limit (h : Leads config n p q) (limit : Nat) :
    Leads { config with maxRounds := limit } n p q := by
  induction h with
  | here p => exact .here p
  | next hnext _ ih => exact .next hnext ih

/-- **A run goes its way.** -/
theorem runFrom_eq (h : Leads config n p q) (budget : Nat) :
    runFrom config (n + budget) p = runFrom config budget q := by
  induction h with
  | here => rw [Nat.zero_add]
  | next hnext _ ih => rw [Nat.add_right_comm, runFrom_of_next? hnext, ih]

/-- A way goes through all rounds before its last. -/
theorem split (h : Leads config n p last) {m : Nat} (hm : m ≤ n) :
    ∃ q, Leads config m p q ∧ Leads config (n - m) q last := by
  induction h generalizing m with
  | here p =>
      obtain rfl : m = 0 := Nat.le_zero.1 hm
      exact ⟨p, .here p, .here p⟩
  | @next n p q last hnext h ih =>
      cases m with
      | zero => exact ⟨p, .here p, .next hnext h⟩
      | succ m =>
          obtain ⟨r, hfirst, hrest⟩ := ih (Nat.le_of_succ_le_succ hm)
          exact ⟨r, .next hnext hfirst, by rwa [Nat.add_sub_add_right]⟩

end Leads

/-- A run has its last round within a number of rounds, or all of these spill. -/
theorem exists_leads (config : AllocationConfig) (budget : Nat) (p : Progress) :
    (∃ q, Leads config budget p q) ∨
      ∃ k < budget, ∃ last, Leads config k p last ∧ last.next? config = none := by
  induction budget generalizing p with
  | zero => exact Or.inl ⟨p, .here p⟩
  | succ budget ih =>
      cases hnext : p.next? config with
      | none => exact Or.inr ⟨0, Nat.succ_pos _, p, .here p, hnext⟩
      | some q =>
          rcases ih q with ⟨r, hleads⟩ | ⟨k, hk, last, hleads, hlast⟩
          · exact Or.inl ⟨r, .next hnext hleads⟩
          · exact Or.inr ⟨k + 1, Nat.succ_lt_succ hk, last, .next hnext hleads, hlast⟩

/-- **Without a limit a run has a last round**, for any supply of names. -/
theorem exists_last
    (haddressed : ∀ instruction ∈ function.code, instruction.isAddressed = true)
    (names : NameSupply) (config : AllocationConfig) :
    ∃ k ≤ function.vars.length, ∃ last,
      Leads config k (Progress.start function names) last ∧ last.next? config = none := by
  have hstart : Kept function (Progress.start function names) :=
    ⟨haddressed, fun v hv => Or.inl hv⟩
  have hspillable : spillable function (Progress.start function names) ≤ function.vars.length :=
    List.length_filter_le _ _
  rcases exists_leads config (function.vars.length + 1) (Progress.start function names) with
    ⟨q, hleads⟩ | ⟨k, hk, hlast⟩
  · have hle := (hstart.rounds hleads.rounds).2
    omega
  · exact ⟨k, Nat.le_of_lt_succ hk, hlast⟩

theorem allocate_of_no_limit (h : config.maxRounds = 0) : function.allocate names config =
    runFrom config (function.vars.length + 1) (Progress.start function names) := by
  rw [Function.allocate, budget, if_pos h]
  rfl

theorem allocate_of_limit {limit : Nat} (hpos : 1 ≤ limit) :
    function.allocate names { config with maxRounds := limit } =
      runFrom { config with maxRounds := limit } limit (Progress.start function names) := by
  rw [Function.allocate, budget, if_neg (Nat.ne_of_gt hpos)]
  rfl

/-- **With enough rounds a run ends in its last.** -/
theorem Leads.allocate_eq (h : Leads config n (Progress.start function names) last)
    (hlast : last.next? config = none) {limit : Nat} (hlimit : n + 1 ≤ limit) :
    function.allocate names { config with maxRounds := limit } = runFrom config 1 last := by
  obtain ⟨spare, rfl⟩ : ∃ spare, limit = n + (spare + 1) := ⟨limit - n - 1, by omega⟩
  rw [allocate_of_limit (by omega), (h.with_limit _).runFrom_eq]
  exact runFrom_of_end hlast _ spare 0

/-- **With too few rounds a run is cut off.** -/
theorem Leads.allocate_cut {limit : Nat}
    (h : Leads config limit (Progress.start function names) p) (hpos : 1 ≤ limit) :
    function.allocate names { config with maxRounds := limit } =
      ⟨.error (.roundLimit function.name limit), p.names, p.log⟩ := by
  have hrun := (h.with_limit limit).runFrom_eq 0
  rw [Nat.add_zero, runFrom, h.name_eq] at hrun
  rw [allocate_of_limit hpos, hrun]
  rfl

end Allocation

open Allocation (Progress Leads)

/-- **A limit on the rounds only cuts runs off.**  Without a limit the allocation of a function ends
in a round `k + 1`, after `k` rounds that spill.  With a limit that is no smaller the run is the same,
with the same result and the same names left.  With a smaller limit it ends with the error of the
limit after as many rounds as that, and the names left are those that the other run has left then. -/
theorem Function.limit_only_cuts_off {function : Function} (hparsed : function.IsParsed)
    (names : NameSupply) {config : AllocationConfig} (hlimit : config.maxRounds = 0) :
    ∃ k last, Leads config k (Progress.start function names) last ∧ last.rounds = k ∧
      last.Ends config (function.allocate names config).result ∧
      (function.allocate names config).names = last.names ∧
      ∀ limit, 1 ≤ limit →
        (k + 1 ≤ limit → function.allocate names { config with maxRounds := limit } =
          function.allocate names config) ∧
        (limit < k + 1 → ∃ p, Leads config limit (Progress.start function names) p ∧
          Leads config (k - limit) p last ∧
          function.allocate names { config with maxRounds := limit } =
            ⟨.error (.roundLimit function.name limit), p.names, p.log⟩) := by
  have haddressed : ∀ instruction ∈ function.code, instruction.isAddressed = true :=
    fun instruction hmem => Instruction.isAddressed_of_isRegular (hparsed.regular instruction hmem)
  obtain ⟨k, hk, last, hleads, hlast⟩ := Allocation.exists_last haddressed names config
  have hfull : function.allocate names config = Allocation.runFrom config 1 last := by
    -- the budget without a limit is enough for the last round
    obtain ⟨spare, hspare⟩ : ∃ spare, function.vars.length + 1 = k + (spare + 1) :=
      ⟨function.vars.length - k, by omega⟩
    rw [Allocation.allocate_of_no_limit hlimit, hspare, hleads.runFrom_eq]
    exact Allocation.runFrom_of_end hlast config.maxRounds spare 0
  obtain ⟨hends, hnames⟩ := Allocation.ends_of_next? hlast 0
  refine ⟨k, last, hleads, ?_, by rwa [hfull], by rwa [hfull], fun limit hpos => ⟨?_, ?_⟩⟩
  · rw [hleads.rounds.rounds_eq]
    exact Nat.zero_add k
  · intro hle
    rw [hfull]
    exact hleads.allocate_eq hlast hle
  · intro hlt
    obtain ⟨p, hfirst, hrest⟩ := hleads.split (Nat.le_of_lt_succ hlt)
    exact ⟨p, hfirst, hrest, hfirst.allocate_cut hpos⟩

/-- A function that keeps a variable across a call, and has another with the name of a temporary. -/
def Function.crossing : Function :=
  .ofCode "crossing" 0 [.assign (.var "x") (.number 1), .call (.code (.function "crossing")) 0,
    .assign (.var "S0") (.number 2), .assign (.register "rax") (.var "x"),
    .arith .add (.register "rax") (.var "S0"), .ret]

/-- It needs two rounds, even if the supply knows nothing of its variables.  A limit of one round
cuts it off when two names are drawn, and a limit of two rounds does not. -/
theorem Function.crossing_limit_cuts_off :
    crossing.allocate (.ofTaken "%S" []) ⟨2, "%S", .firstSeen⟩ =
        crossing.allocate (.ofTaken "%S" []) ⟨0, "%S", .firstSeen⟩ ∧
      ∃ p, Leads ⟨0, "%S", .firstSeen⟩ 1 (Progress.start crossing (.ofTaken "%S" [])) p ∧
        p.names = ⟨"S", 2, []⟩ ∧
        crossing.allocate (.ofTaken "%S" []) ⟨1, "%S", .firstSeen⟩ =
          ⟨.error (.roundLimit "crossing" 1), p.names, p.log⟩ := by
  have hread : Function.read ("(@crossing 0 (%x <- 1) (call @crossing 0) (%S0 <- 2) " ++
      "(rax <- %x) (rax += %S0) (return))").toList = .ok crossing := by decide +kernel
  have hnone : (⟨0, "%S", .firstSeen⟩ : AllocationConfig).maxRounds = 0 := rfl
  have htwo : (crossing.allocate (.ofTaken "%S" []) ⟨0, "%S", .firstSeen⟩).result.map
      FunctionAllocation.rounds = .ok 2 := by decide +kernel
  have hdrawn : (crossing.allocate (.ofTaken "%S" []) ⟨1, "%S", .firstSeen⟩).names =
      ⟨"S", 2, []⟩ := by decide +kernel
  obtain ⟨k, last, -, hrounds, hends, -, hlimit⟩ :=
    limit_only_cuts_off (Or.inl ⟨_, hread⟩) (.ofTaken "%S" []) hnone
  dsimp only at hlimit
  obtain rfl : k = 1 := by
    rcases hends with ⟨e, -, herror⟩ | ⟨attempt, assigned, -, -, hok⟩
    · simp [herror, Except.map] at htwo
    · simp only [hok, Except.map, Except.ok.injEq] at htwo
      omega
  obtain ⟨p, hleads, -, hcut⟩ := (hlimit 1 (by decide)).2 (by decide)
  rw [hcut] at hdrawn
  exact ⟨(hlimit 2 (by decide)).1 (by decide), p, hleads, hdrawn, hcut⟩

end RegisterColouring
