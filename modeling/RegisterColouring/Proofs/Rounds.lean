/-
**Rounds of allocation, one by one.**

A round that does not end the allocation of a function spills variables of the function that are
still in its code.  The next round works on code without them, in which only temporaries are new.  A
round ends the allocation with registers, with the error of an analysis, which later rounds never
meet, or with the error of a colouring, which the first round never meets.

Main definitions:

* `RegisterColouring.Allocation.Round`, `RegisterColouring.Allocation.Rounds` — rounds that spill;
* `RegisterColouring.Allocation.lastFrom` — what they have done before the last round;
* `RegisterColouring.Allocation.Sound` — what is known between rounds;
* `RegisterColouring.Allocation.Called` — the supply of names with which a function is allocated.

Main results:

* `RegisterColouring.Allocation.Sound.round` — **what a round keeps**, and what it removes;
* `RegisterColouring.Allocation.runFrom_last` — allocation is rounds that spill, and a last one;
* `RegisterColouring.Allocation.Sound.attempt_error` — how a round fails.
-/

import RegisterColouring.Allocation.Rounds
import RegisterColouring.Proofs.Grammar
import RegisterColouring.Proofs.Selection
import RegisterColouring.Proofs.SpillAnalysis

set_option autoImplicit false

namespace RegisterColouring

namespace Allocation

/-! ### Rounds -/

/-- The start of the allocation of a function. -/
def Progress.start (function : Function) (names : NameSupply) : Progress :=
  ⟨function, names, [], [], 0, []⟩

/-- What a round tries. -/
def Progress.attempt (progress : Progress) (config : AllocationConfig) :
    Except AllocationError Attempt :=
  Allocation.attempt config.heuristic (progress.rounds + 1) progress.function progress.unspillable

/-- **A round that spills.** -/
def Round (config : AllocationConfig) (p q : Progress) : Prop :=
  ∃ attempt spills event, p.attempt config = .ok attempt ∧ attempt.assignment = .spills spills ∧
    q = p.spill spills event

/-- A number of rounds that spill. -/
inductive Rounds (config : AllocationConfig) : Nat → Progress → Progress → Prop
  | refl (p : Progress) : Rounds config 0 p p
  | tail {n : Nat} {p q r : Progress} (h : Rounds config n p q) (hround : Round config q r) :
      Rounds config (n + 1) p r

theorem Rounds.head {config : AllocationConfig} {n : Nat} {p q r : Progress}
    (hround : Round config p q) (h : Rounds config n q r) : Rounds config (n + 1) p r := by
  induction h with
  | refl => exact Rounds.tail (Rounds.refl p) hround
  | tail _ hlast ih => exact Rounds.tail (ih hround) hlast

theorem Rounds.rounds_eq {config : AllocationConfig} {n : Nat} {p q : Progress}
    (h : Rounds config n p q) : q.rounds = p.rounds + n := by
  induction h with
  | refl => rfl
  | tail _ hround ih =>
      obtain ⟨attempt, spills, event, -, -, rfl⟩ := hround
      rw [Progress.spill, ih, Nat.add_assoc]

/-- How the allocation of a function ends in a round that does not spill. -/
def Progress.Ends (last : Progress) (config : AllocationConfig)
    (result : Except AllocationError FunctionAllocation) : Prop :=
  (∃ e, last.attempt config = .error e ∧ result = .error e) ∨
    ∃ attempt assigned, last.attempt config = .ok attempt ∧
      attempt.assignment = .registers assigned ∧
      result = .ok ⟨last.function, assigned, last.rounds + 1, last.spilled⟩

/-- What has been done before the last round, when there are at most `budget` of them. -/
def lastFrom (config : AllocationConfig) : (budget : Nat) → Progress → Progress
  | 0, p => p
  | budget + 1, p =>
    match p.attempt config with
    | .ok ⟨nodes, passes, .spills spills⟩ =>
      lastFrom config budget
        (p.spill spills (.round p.function.name (p.rounds + 1) nodes passes spills))
    | _ => p

/-- **Allocation is rounds that spill, and then a last one**, unless there are too many. -/
theorem runFrom_last (config : AllocationConfig) (budget : Nat) (p : Progress) :
    (runFrom config budget p).names = (lastFrom config budget p).names ∧
      ∃ k, Rounds config k p (lastFrom config budget p) ∧
        ((k < budget ∧ (lastFrom config budget p).Ends config (runFrom config budget p).result) ∨
          (k = budget ∧ (runFrom config budget p).result =
            .error (.roundLimit (lastFrom config budget p).function.name config.maxRounds))) := by
  -- a round that spills takes one from the budget
  induction budget generalizing p with
  | zero => exact ⟨rfl, 0, Rounds.refl p, Or.inr ⟨rfl, rfl⟩⟩
  | succ budget ih =>
      cases hattempt : p.attempt config with
      | error e =>
          have hrun : runFrom config (budget + 1) p = ⟨.error e, p.names, p.log⟩ := by
            rw [Progress.attempt] at hattempt
            simp only [runFrom, hattempt]
          rw [hrun, show lastFrom config (budget + 1) p = p by simp only [lastFrom, hattempt]]
          exact ⟨rfl, 0, Rounds.refl p, Or.inl ⟨Nat.succ_pos _, Or.inl ⟨e, hattempt, rfl⟩⟩⟩
      | ok attempt =>
          have hattempt' := hattempt
          rw [Progress.attempt] at hattempt'
          obtain ⟨nodes, passes, assignment⟩ := attempt
          cases assignment with
          | registers assigned =>
              rw [show lastFrom config (budget + 1) p = p by simp only [lastFrom, hattempt]]
              refine ⟨?_, 0, Rounds.refl p,
                Or.inl ⟨Nat.succ_pos _, Or.inr ⟨_, assigned, hattempt, rfl, ?_⟩⟩⟩
              · simp only [runFrom, hattempt']
              · simp only [runFrom, hattempt']
          | spills spills =>
              simp only [runFrom, lastFrom, hattempt, hattempt']
              obtain ⟨hnames, k, hrounds, hend⟩ := ih (p.spill spills
                (.round p.function.name (p.rounds + 1) nodes passes spills))
              refine ⟨hnames, k + 1, Rounds.head ⟨_, spills, _, hattempt, rfl, rfl⟩ hrounds,
                hend.imp ?_ ?_⟩
              · rintro ⟨hlt, hend⟩
                exact ⟨by omega, hend⟩
              · rintro ⟨rfl, hend⟩
                exact ⟨rfl, hend⟩

/-! ### What a round tries -/

theorem attempt_eq_error {p : Progress} {config : AllocationConfig} {e : AllocationError}
    (h : p.attempt config = .error e) :
    (∃ cause, Liveness.analyse p.function = .error cause ∧ e = .analysis (p.rounds + 1) cause) ∨
      ∃ result cause, Liveness.analyse p.function = .ok result ∧
        (Graph.ofLiveness result).colour p.function.name ⟨config.heuristic, p.unspillable⟩ =
          .error cause ∧ e = .colouring (p.rounds + 1) cause := by
  unfold Progress.attempt Allocation.attempt at h
  split at h
  · next cause hcause => exact Or.inl ⟨cause, hcause, (Except.error.inj h).symm⟩
  · next result hresult =>
    dsimp only at h
    split at h
    · next cause hcause => exact Or.inr ⟨result, cause, hresult, hcause, (Except.error.inj h).symm⟩
    · simp at h

theorem attempt_eq_ok {p : Progress} {config : AllocationConfig} {attempt : Attempt}
    (h : p.attempt config = .ok attempt) :
    ∃ result optimistic, Liveness.analyse p.function = .ok result ∧
      (Graph.ofLiveness result).colour p.function.name ⟨config.heuristic, p.unspillable⟩ =
        .ok ⟨attempt.assignment, optimistic⟩ := by
  unfold Progress.attempt Allocation.attempt at h
  split at h
  · simp at h
  · next result hresult =>
    dsimp only at h
    split at h
    · simp at h
    · next colouring hcolouring =>
      rw [← Except.ok.inj h]
      exact ⟨result, colouring.optimistic, hresult, hcolouring⟩

/-- The variables that a round spills are in the code, and none that cannot be spilled. -/
theorem spills_of_attempt {p : Progress} {config : AllocationConfig} {attempt : Attempt}
    {spills : List Name} (hattempt : p.attempt config = .ok attempt)
    (hspills : attempt.assignment = .spills spills) :
    spills ≠ [] ∧ ∀ name ∈ spills, name ∉ p.unspillable ∧
      ∃ v ∈ p.function.vars, name = Name.ofVariable v := by
  obtain ⟨result, optimistic, hresult, hcolour⟩ := attempt_eq_ok hattempt
  have hanalysed := Liveness.analysed_of_analyse hresult
  rw [hspills] at hcolour
  obtain ⟨hne, hmem⟩ := Graph.colour_spills (Graph.simple_ofLiveness hanalysed)
    (by rw [Graph.vocabulary_ofLiveness]; exact hanalysed.nodup) hcolour
  refine ⟨hne, ?_⟩
  intro name hname
  obtain ⟨hspillable, hknown, hregister⟩ := hmem name hname
  rw [Graph.vocabulary_ofLiveness, hanalysed.vocabulary_eq, Vocabulary.ofFunction,
    Vocabulary.mem_names_ofVariables] at hknown
  exact ⟨hspillable, hknown.resolve_left hregister⟩

/-! ### Between rounds -/

/-- **What is known between rounds** of the allocation of a function: the variables in the code are
variables of the function and temporaries, which cannot be spilled. -/
structure Sound (function : Function) (names : NameSupply) (p : Progress) : Prop where
  name_eq : p.function.name = function.name
  regular : p.function.Regular
  avoids : ∀ v ∈ p.function.vars, p.names.Avoids v
  mono : ∀ v, names.Avoids v → p.names.Avoids v
  vars : ∀ v ∈ p.function.vars, v ∈ function.vars ∨ Name.ofVariable v ∈ p.unspillable
  temporary : ∀ name ∈ p.unspillable, ∃ t, name = Name.ofVariable t ∧ p.names.Avoids t ∧
    ¬ names.Avoids t

theorem sound_start {function : Function} {names : NameSupply} (hregular : function.Regular)
    (havoids : ∀ v ∈ function.vars, names.Avoids v) :
    Sound function names (Progress.start function names) :=
  ⟨rfl, hregular, havoids, fun _ h => h, fun _ hv => Or.inl hv, by simp [Progress.start]⟩

namespace Sound

variable {function : Function} {names : NameSupply} {p q : Progress} {config : AllocationConfig}

/-- The variables that a round spills are variables of the function that are still in the code. -/
theorem spills (h : Sound function names p) {attempt : Attempt} {spills : List Name}
    (hattempt : p.attempt config = .ok attempt) (hspills : attempt.assignment = .spills spills) :
    spills ≠ [] ∧ ∀ name ∈ spills, name ∉ p.unspillable ∧
      ∃ v ∈ function.vars, v ∈ p.function.vars ∧ name = Name.ofVariable v := by
  obtain ⟨hne, hmem⟩ := spills_of_attempt hattempt hspills
  refine ⟨hne, ?_⟩
  intro name hname
  obtain ⟨hspillable, v, hv, rfl⟩ := hmem name hname
  exact ⟨hspillable, v, (h.vars v hv).resolve_right hspillable, hv, rfl⟩

/-- **What a round keeps, and what it removes**: some variable of the function leaves the code, and
none comes back. -/
theorem round (h : Sound function names p) (hround : Round config p q)
    (havoids : ∀ v ∈ function.vars, names.Avoids v) :
    Sound function names q ∧ (∃ result, Liveness.analyse q.function = .ok result) ∧
      (∃ v ∈ function.vars, v ∈ p.function.vars ∧ v ∉ q.function.vars) ∧
      ∀ v ∈ function.vars, v ∈ q.function.vars → v ∈ p.function.vars := by
  obtain ⟨attempt, spills, event, hattempt, hspills, rfl⟩ := hround
  obtain ⟨hne, hmem⟩ := h.spills hattempt hspills
  have hdrawn := p.function.drawn_spill spills p.names
  have hvars : ∀ v, v ∈ (p.function.spill spills p.names).function.vars ↔
      (v ∈ p.function.vars ∧ Name.ofVariable v ∉ spills) ∨
        v ∈ Spill.temporaries (p.function.spillPlan spills p.names).flatten :=
    fun v => Function.mem_vars_spill h.regular h.avoids
  -- a temporary is no variable of the function
  have hold : ∀ v ∈ function.vars,
      v ∉ Spill.temporaries (p.function.spillPlan spills p.names).flatten := by
    intro v hv ht
    exact hdrawn.fresh v ht (h.mono v (havoids v hv))
  refine ⟨⟨h.name_eq, Function.regular_spill h.regular h.avoids,
    fun v hv => Function.avoids_spill h.regular h.avoids hv,
    fun v hv => hdrawn.mono v (h.mono v hv), ?_, ?_⟩, ?_, ?_, ?_⟩
  · intro v hv
    rcases (hvars v).1 hv with ⟨hv, -⟩ | hv
    · exact (h.vars v hv).imp_right (List.mem_append_left _)
    · right
      apply List.mem_append_right
      rw [Function.temporaries_spill]
      exact List.mem_map_of_mem hv
  · intro name hname
    rcases List.mem_append.1 hname with hname | hname
    · obtain ⟨t, rfl, havoid, hfresh⟩ := h.temporary name hname
      exact ⟨t, rfl, hdrawn.mono t havoid, hfresh⟩
    · rw [Function.temporaries_spill] at hname
      obtain ⟨t, ht, rfl⟩ := List.mem_map.1 hname
      exact ⟨t, rfl, hdrawn.used t ht, fun havoid => hdrawn.fresh t ht (h.mono t havoid)⟩
  · obtain ⟨result, optimistic, hresult, -⟩ := attempt_eq_ok hattempt
    exact Function.analyse_spill h.regular h.avoids hresult
  · obtain ⟨name, hname⟩ := List.exists_mem_of_ne_nil _ hne
    obtain ⟨-, v, hv, hvp, rfl⟩ := hmem name hname
    refine ⟨v, hv, hvp, ?_⟩
    intro hvq
    rcases (hvars v).1 hvq with ⟨-, hspilled⟩ | ht
    · exact hspilled hname
    · exact hold v hv ht
  · intro v hv hvq
    rcases (hvars v).1 hvq with ⟨hvp, -⟩ | ht
    · exact hvp
    · exact absurd ht (hold v hv)

theorem rounds (h : Sound function names p) {n : Nat} (hrounds : Rounds config n p q)
    (havoids : ∀ v ∈ function.vars, names.Avoids v) : Sound function names q := by
  induction hrounds with
  | refl => exact h
  | tail _ hround ih => exact ((ih h).round hround havoids).1

/-- **What each round keeps, all of them keep.** -/
theorem rounds_induction {motive : Nat → Progress → Prop} (h : Sound function names p)
    (havoids : ∀ v ∈ function.vars, names.Avoids v) {n : Nat} (hrounds : Rounds config n p q)
    (hp : motive 0 p)
    (hstep : ∀ n p q, Sound function names p → Round config p q → motive n p → motive (n + 1) q) :
    motive n q := by
  induction hrounds with
  | refl => exact hp
  | tail hrounds hround ih => exact hstep _ _ _ (h.rounds hrounds havoids) hround (ih h hp)

/-- **How a round fails**: on labels, or, if some name cannot be spilled, on the colouring. -/
theorem attempt_error (h : Sound function names p) {e : AllocationError}
    (herror : p.attempt config = .error e) :
    (∃ cause, Liveness.analyse p.function = .error cause ∧ e = .analysis (p.rounds + 1) cause ∧
      ((∃ index label, cause = .duplicateLabel function.name index label) ∨
        ∃ index label, cause = .unknownLabel function.name index label)) ∨
      ((∃ nodes, e = .colouring (p.rounds + 1) (.unsatisfiable function.name nodes)) ∧
        p.unspillable ≠ []) := by
  rcases attempt_eq_error herror with ⟨cause, hcause, rfl⟩ | ⟨result, cause, hresult, hcause, rfl⟩
  · left
    refine ⟨cause, hcause, rfl, ?_⟩
    rw [← h.name_eq]
    rcases Liveness.analyse_error hcause with
      hlabel | hlabel | ⟨-, instruction, hmem, name, hname, hout⟩
    · exact Or.inl hlabel
    · exact Or.inr hlabel
    · exact absurd (h.regular.known hmem hname) hout
  · right
    have hanalysed := Liveness.analysed_of_analyse hresult
    obtain ⟨⟨nodes, rfl⟩, node, -, hstuck, -⟩ := Graph.colour_error
      (Graph.simple_ofLiveness hanalysed)
      (by rw [Graph.vocabulary_ofLiveness]; exact hanalysed.nodup) hcause
    refine ⟨⟨nodes, by rw [h.name_eq]⟩, ?_⟩
    intro hnil
    simp [Graph.isSpillable, hnil] at hstuck

end Sound

/-! ### The functions of a program -/

/-- **The supply of names with which a function is allocated**, when functions are allocated one
after the other until one fails. -/
inductive Called (config : AllocationConfig) :
    NameSupply → List Function → Function → NameSupply → Prop
  | here (names : NameSupply) (function : Function) (functions : List Function) :
      Called config names (function :: functions) function names
  | later {names names' : NameSupply} {first function : Function} {functions : List Function}
      {allocation : FunctionAllocation}
      (hfirst : (first.allocate names config).result = .ok allocation)
      (h : Called config (first.allocate names config).names functions function names') :
      Called config names (first :: functions) function names'

variable {config : AllocationConfig} {names names' : NameSupply} {function : Function}
  {functions : List Function}

theorem Called.mem (h : Called config names functions function names') : function ∈ functions := by
  induction h with
  | here => exact List.mem_cons_self ..
  | later _ _ ih => exact List.mem_cons_of_mem _ ih

/-- Allocation forgets no name that is to be avoided. -/
theorem avoids_allocate (hregular : function.Regular)
    (havoids : ∀ v ∈ function.vars, names.Avoids v) {v : String} (hv : names.Avoids v) :
    (function.allocate names config).names.Avoids v := by
  obtain ⟨hnames, k, hrounds, -⟩ :=
    runFrom_last config (budget config function) (Progress.start function names)
  have hlast := (sound_start hregular havoids).rounds hrounds havoids
  rw [Progress.start] at hnames
  rw [Function.allocate, hnames]
  exact hlast.mono v hv

/-- The supply with which a function is allocated avoids what the first supply avoids. -/
theorem Called.avoids (h : Called config names functions function names')
    (hregular : ∀ function ∈ functions, function.Regular)
    (havoids : ∀ function ∈ functions, ∀ v ∈ function.vars, names.Avoids v) :
    ∀ v, names.Avoids v → names'.Avoids v := by
  induction h with
  | here => exact fun v hv => hv
  | @later names _ first _ functions _ _ _ ih =>
      have hmono : ∀ v, names.Avoids v → (first.allocate names config).names.Avoids v := fun v hv =>
        avoids_allocate (hregular first (List.mem_cons_self ..))
          (havoids first (List.mem_cons_self ..)) hv
      intro v hv
      exact ih (fun g hg => hregular g (List.mem_cons_of_mem _ hg))
        (fun g hg w hw => hmono w (havoids g (List.mem_cons_of_mem _ hg) w hw)) v (hmono v hv)

/-- A program fails on a function that is allocated with some supply and fails. -/
theorem called_of_runAll_error {log : List Event} {e : ProgramError}
    (h : (runAll config names log functions).result = .error e) :
    ∃ function names', Called config names functions function names' ∧
      e.function = function.name ∧ (function.allocate names' config).result = .error e.cause := by
  induction functions generalizing names log with
  | nil => simp [runAll] at h
  | cons first rest ih =>
      unfold runAll at h
      dsimp only at h
      split at h
      · next cause hcause =>
        obtain rfl := Except.error.inj h
        exact ⟨first, names, Called.here _ _ _, rfl, hcause⟩
      · next allocation hallocation =>
        split at h
        · next e' he' =>
          obtain rfl := Except.error.inj h
          obtain ⟨function, names', hcalled, hname, hresult⟩ := ih he'
          exact ⟨function, names', Called.later hallocation hcalled, hname, hresult⟩
        · simp at h

end Allocation

/-- **Where the allocation of a program fails.** -/
theorem Program.called_of_allocate_error {program : Program} {config : AllocationConfig}
    {e : ProgramError} (h : (program.allocate config).result = .error e) :
    ∃ function names, Allocation.Called config (NameSupply.ofTaken config.stem program.vars)
      program.functions function names ∧ e.function = function.name ∧
      (function.allocate names config).result = .error e.cause := by
  unfold Program.allocate at h
  dsimp only at h
  split at h
  · next cause hcause =>
    rw [← Except.error.inj h]
    exact Allocation.called_of_runAll_error hcause
  · simp at h

end RegisterColouring
