/-
**Temporaries stay where they were made.**

After any number of rounds the code of a function falls into parts, one for each of its instructions:
what the rounds have made of it.  A temporary is mentioned in one of these parts only, and is live
only inside it: not before its first step and not after its last.  A round keeps this for earlier
temporaries, since it moves the ends of their parts with the code, and it makes each new temporary
for one step of one part.  With the homes of temporaries it follows that a temporary conflicts with
at most one other.

Main definitions:

* `RegisterColouring.Confined` — a name that is mentioned and live only inside a piece of the code;
* `RegisterColouring.Allocation.Derived` — the code after some rounds, in parts.

Main results:

* `RegisterColouring.Spill.Planned.confined_kept`,
  `RegisterColouring.Spill.Planned.confined_temporary` — earlier temporaries and new ones;
* `RegisterColouring.Homes.conflict_unique` — a temporary conflicts with at most one other;
* `RegisterColouring.Program.temporaries_confined` — **temporaries stay small over all rounds**.
-/

import RegisterColouring.Proofs.Completeness
import RegisterColouring.Proofs.Outcomes
import RegisterColouring.Proofs.SpillParts

set_option autoImplicit false

namespace RegisterColouring

/-- **A name that is mentioned and live only inside a piece of the code**: the one from a position
up to the position before `next`.  It is not live before the first step of the piece, and not after
its last. -/
structure Confined (code : List Instruction) (name : Name) (first next : Nat) : Prop where
  exists_mention : ∃ (i : Nat) (instruction : Instruction), code[i]? = some instruction ∧
    IsVariableOf instruction.vars name
  mention : ∀ (i : Nat) (instruction : Instruction), code[i]? = some instruction →
    IsVariableOf instruction.vars name → first ≤ i ∧ i < next
  liveAt : ∀ i, LiveAt code name i → first < i ∧ i < next
  liveAfter : ∀ i, LiveAfter code name i → first ≤ i ∧ i + 1 < next

namespace Confined

variable {code : List Instruction} {name : Name} {first next : Nat}

/-- A larger piece will do as well. -/
theorem mono (h : Confined code name first next) {first' next' : Nat} (hfirst : first' ≤ first)
    (hnext : next ≤ next') : Confined code name first' next' where
  exists_mention := h.exists_mention
  mention i instruction hi hmention := by
    have := h.mention i instruction hi hmention
    omega
  liveAt i hlive := by
    have := h.liveAt i hlive
    omega
  liveAfter i hlive := by
    have := h.liveAfter i hlive
    omega

/-- A name that is confined to a part of the code is mentioned in no other part. -/
theorem mentioned_iff {parts : List (List Instruction)} {i j : Nat} {part other : List Instruction}
    (h : Confined parts.flatten name (blockStart parts i) (blockStart parts (i + 1)))
    (hi : parts[i]? = some part) (hj : parts[j]? = some other) :
    (∃ step ∈ other, IsVariableOf step.vars name) ↔ j = i := by
  rw [blockStart_succ hi] at h
  constructor
  · rintro ⟨step, hstep, hmention⟩
    obtain ⟨k, hk⟩ := List.mem_iff_getElem?.1 hstep
    have hlt := (List.getElem?_eq_some_iff.1 hk).1
    have hat : parts.flatten[blockStart parts j + k]? = some step :=
      (getElem?_flatten_block hj hlt).trans hk
    obtain ⟨hfirst, hnext⟩ := h.mention _ step hat hmention
    exact (block_unique hj hi hlt (show blockStart parts j + k - blockStart parts i < part.length
      by omega) (by omega)).1
  · rintro rfl
    obtain rfl := Option.some_inj.1 (hi.symm.trans hj)
    obtain ⟨p, step, hp, hmention⟩ := h.exists_mention
    obtain ⟨hfirst, hnext⟩ := h.mention p step hp hmention
    obtain ⟨k, rfl⟩ := Nat.exists_eq_add_of_le hfirst
    rw [getElem?_flatten_block hi (by omega)] at hp
    exact ⟨step, List.mem_of_getElem? hp, hmention⟩

end Confined

/-! ### Spilling -/

namespace Spill

theorem start_mono (plan : List (List Replacement)) (code : List Instruction) {i j : Nat}
    (hij : i ≤ j) : start plan code i ≤ start plan code j :=
  blockStart_mono hij

/-- The steps of a block come before the later blocks. -/
theorem Site.lt_start {plan : List (List Replacement)} {code : List Instruction} {i j k : Nat}
    {replacements : List Replacement} {instruction : Instruction}
    (hsite : Site plan code i replacements instruction)
    (hk : k < (expand replacements instruction).length) (hij : i < j) :
    start plan code i + k < start plan code j := by
  have hnext := start_mono plan code (Nat.succ_le_of_lt hij)
  rw [hsite.start_succ] at hnext
  omega

namespace Planned

variable {targets : List Name} {code : List Instruction} {plan : List (List Replacement)}
  (h : Planned targets code plan) {i j k first next : Nat} {instruction step : Instruction}
  {replacements : List Replacement} {name : Name} {r : Replacement}

include h

/-- No block is empty. -/
theorem start_lt (hij : i < j) (hi : i < code.length) : start plan code i < start plan code j := by
  obtain ⟨replacements, hsite⟩ := h.exists_site_at (List.getElem?_eq_getElem hi)
  have hlength := length_expand replacements code[i]
  exact hsite.lt_start (show 0 < _ by omega) hij

/-- A name that spilling does not touch is mentioned in the block of an instruction only if the
instruction mentions it. -/
theorem mentions_of_neutral (hneutral : Neutral plan name)
    (hsite : Site plan code i replacements instruction)
    (hk : (expand replacements instruction)[k]? = some step)
    (hmention : IsVariableOf step.vars name) : IsVariableOf instruction.vars name := by
  obtain ⟨v, hv, rfl⟩ := hmention
  have htemporary : ∀ r ∈ replacements, v ≠ r.temporary := by
    rintro r hr rfl
    exact (neutral_of_site hneutral hsite hr).2 rfl
  rcases expand_cases hk with ⟨-, r, hr, -, rfl⟩ | ⟨-, rfl⟩ | ⟨-, r, hr, -, rfl⟩
  · exact absurd (List.mem_singleton.1 hv) (htemporary r hr)
  · rcases (h.replaces i _ _ hsite).mem_vars.1 hv with ⟨hv, -⟩ | hv
    · exact ⟨v, hv, rfl⟩
    · obtain ⟨r, hr, heq⟩ := List.mem_map.1 hv
      exact absurd heq.symm (htemporary r hr)
  · exact absurd (List.mem_singleton.1 hv) (htemporary r hr)

theorem mentions_core_of_neutral (hneutral : Neutral plan name)
    (hsite : Site plan code i replacements instruction)
    (hmention : IsVariableOf instruction.vars name) :
    IsVariableOf (instruction.rename (image replacements)).vars name := by
  obtain ⟨v, hv, rfl⟩ := hmention
  refine ⟨v, (h.replaces i _ _ hsite).mem_vars.2 (Or.inl ⟨hv, ?_⟩), rfl⟩
  intro htarget
  obtain ⟨r, hr, hvictim⟩ := (h.replaces i _ _ hsite).exists_replacement hv htarget
  exact (neutral_of_site hneutral hsite hr).1 hvictim

/-- **A name that spilling does not touch stays confined**: the ends of its piece move with the
code. -/
theorem confined_kept (hneutral : Neutral plan name) (hconfined : Confined code name first next)
    (hnext : next ≤ code.length) :
    Confined (expanded plan code) name (start plan code first) (start plan code next) where
  exists_mention := by
    obtain ⟨i, instruction, hi, hmention⟩ := hconfined.exists_mention
    obtain ⟨replacements, hsite⟩ := h.exists_site_at hi
    exact ⟨_, _, hsite.getElem?_expanded (getElem?_expand_core _ _),
      h.mentions_core_of_neutral hneutral hsite hmention⟩
  mention p step hp hmention := by
    obtain ⟨i, replacements, instruction, k, hsite, hk, rfl⟩ := exists_site hp
    have hlt := (List.getElem?_eq_some_iff.1 hk).1
    obtain ⟨hfirst, hlast⟩ := hconfined.mention i instruction hsite.code_eq
      (h.mentions_of_neutral hneutral hsite hk hmention)
    have hstart := start_mono plan code hfirst
    exact ⟨by omega, hsite.lt_start hlt hlast⟩
  liveAt p hlive := by
    obtain ⟨i, replacements, instruction, k, hsite, hk, rfl⟩ :=
      exists_site (List.getElem?_eq_getElem hlive.lt)
    have hlt := (List.getElem?_eq_some_iff.1 hk).1
    have hwas := h.liveAt_of_expanded hneutral hlive hsite hlt rfl
    -- up to the instruction on temporaries it was live before the instruction, then after it
    split at hwas
    · obtain ⟨hfirst, hlast⟩ := hconfined.liveAt i hwas
      have hstart := h.start_lt hfirst (by omega)
      exact ⟨by omega, hsite.lt_start hlt hlast⟩
    · obtain ⟨hfirst, hlast⟩ := hconfined.liveAfter i hwas
      have hstart := start_mono plan code hfirst
      exact ⟨by omega, hsite.lt_start hlt (by omega)⟩
  liveAfter p hlive := by
    obtain ⟨q, hflow, hq⟩ := hlive
    obtain ⟨step, hp⟩ := hflow.exists_instruction
    obtain ⟨i, replacements, instruction, k, hsite, hk, rfl⟩ := exists_site hp
    have hlt := (List.getElem?_eq_some_iff.1 hk).1
    have hlength := length_expand replacements instruction
    rcases Nat.lt_or_ge k (loadCount replacements instruction) with hearly | hlate
    · have hwas := (h.liveAfter_early hneutral hsite hearly).1 ⟨q, hflow, hq⟩
      obtain ⟨hfirst, hlast⟩ := hconfined.liveAt i hwas
      have hstart := start_mono plan code (Nat.le_of_lt hfirst)
      exact ⟨by omega, hsite.lt_start (show k + 1 < _ by omega) hlast⟩
    · have hwas := (h.liveAfter_late hneutral hsite hlate hlt).1 ⟨q, hflow, hq⟩
      obtain ⟨hfirst, hlast⟩ := hconfined.liveAfter i hwas
      have hstart := start_mono plan code hfirst
      have hblock := hsite.lt_start hlt (Nat.lt_add_one i)
      have hnext := h.start_lt hlast (by omega)
      omega

/-- **A new temporary is confined to the block that it was made for.** -/
theorem confined_temporary (hsite : Site plan code i replacements instruction)
    (hr : r ∈ replacements) :
    Confined (expanded plan code) (Name.ofVariable r.temporary) (start plan code i)
      (start plan code (i + 1)) := by
  rw [hsite.start_succ]
  refine ⟨?_, ?_, ?_, ?_⟩
  · exact ⟨_, _, hsite.getElem?_expanded (getElem?_expand_core _ _), r.temporary,
      (h.replaces i _ _ hsite).mem_vars.2 (Or.inr (List.mem_map_of_mem hr)), rfl⟩
  · rintro p step hp ⟨v, hv, heq⟩
    obtain rfl := Name.ofVariable_inj.1 heq
    obtain ⟨j, others, other, k, hother, hk, rfl⟩ := exists_site hp
    have hlt := (List.getElem?_eq_some_iff.1 hk).1
    -- the block is the one that the temporary was made for
    have hsame : ∀ s ∈ others, r.temporary = s.temporary → i = j := fun s hs heq =>
      (h.temporary_unique hsite hr hother hs heq).1
    have hij : i = j := by
      rcases expand_cases hk with ⟨-, s, hs, -, rfl⟩ | ⟨-, rfl⟩ | ⟨-, s, hs, -, rfl⟩
      · exact hsame s hs (List.mem_singleton.1 hv)
      · rcases (h.replaces j _ _ hother).mem_vars.1 hv with ⟨hv, -⟩ | hv
        · exact absurd hv (h.fresh _ (List.mem_map_of_mem (hsite.mem_flatten hr)) other
            (List.mem_of_getElem? hother.code_eq))
        · obtain ⟨s, hs, heq⟩ := List.mem_map.1 hv
          exact hsame s hs heq.symm
      · exact hsame s hs (List.mem_singleton.1 hv)
    subst hij
    obtain ⟨rfl, rfl⟩ := hsite.eq hother
    omega
  · intro p hlive
    obtain ⟨k, rfl, hpos, hlt, -⟩ := h.liveAt_temporary hsite hr hlive
    omega
  · intro p hlive
    obtain ⟨step, hp⟩ := hlive.choose_spec.1.exists_instruction
    obtain ⟨k, rfl, -, hlt, -⟩ := h.liveAfter_temporary hsite hr hlive hp
    omega

end Planned

end Spill

/-- **A temporary conflicts with at most one other.** -/
theorem Homes.conflict_unique {code : List Instruction} {temporaries : List Name}
    {home : Name → Nat → Instruction → Prop} (hhomes : Homes code temporaries home) {t u w : Name}
    (ht : t ∈ temporaries) (hu : u ∈ temporaries) (hw : w ∈ temporaries)
    (htu : Conflict code t u) (htw : Conflict code t w) : u = w := by
  obtain ⟨i, instruction, hthome⟩ := hhomes.exists_home t ht
  obtain ⟨j, other, huhome⟩ := hhomes.exists_home u hu
  obtain ⟨k, another, hwhome⟩ := hhomes.exists_home w hw
  obtain ⟨-, htgen, hugen⟩ := hhomes.together hthome huhome htu
  obtain ⟨-, -, hwgen⟩ := hhomes.together hthome hwhome htw
  exact Instruction.eq_of_mem_gen htgen hugen hwgen (hhomes.belongs hthome).not_register
    (hhomes.belongs huhome).not_register (hhomes.belongs hwhome).not_register htu.1 htw.1

/-! ### The rounds of an allocation -/

namespace Allocation

/-- **The code of a function after some rounds, in parts**: one for each instruction, with all that
the rounds have made of it. -/
inductive Derived (config : AllocationConfig) (function : Function) (names : NameSupply) :
    Nat → Progress → List (List Instruction) → Prop
  | start : Derived config function names 0 (Progress.start function names)
      (function.code.map fun instruction => [instruction])
  | round {n : Nat} {p : Progress} {parts : List (List Instruction)} {attempt : Attempt}
      {spills : List Name} (event : Event) (h : Derived config function names n p parts)
      (hattempt : p.attempt config = .ok attempt) (hspills : attempt.assignment = .spills spills) :
      Derived config function names (n + 1) (p.spill spills event)
        (p.function.spillParts spills p.names parts)

variable {config : AllocationConfig} {function : Function} {names : NameSupply} {n : Nat}
  {p : Progress} {parts : List (List Instruction)}

/-- After any number of rounds the code is in parts. -/
theorem Rounds.exists_derived (h : Rounds config n (Progress.start function names) p) :
    ∃ parts, Derived config function names n p parts := by
  generalize hstart : Progress.start function names = start at h
  induction h with
  | refl => exact ⟨_, hstart ▸ Derived.start⟩
  | tail _ hround ih =>
      obtain ⟨attempt, spills, event, hattempt, hspills, rfl⟩ := hround
      obtain ⟨parts, hparts⟩ := ih hstart
      exact ⟨_, Derived.round event hparts hattempt hspills⟩

namespace Derived

theorem rounds (h : Derived config function names n p parts) :
    Rounds config n (Progress.start function names) p := by
  induction h with
  | start => exact Rounds.refl _
  | round event _ hattempt hspills ih =>
      exact Rounds.tail ih ⟨_, _, event, hattempt, hspills, rfl⟩

theorem flatten_eq (h : Derived config function names n p parts) :
    parts.flatten = p.function.code := by
  induction h with
  | start => exact function.flatten_singletons
  | round event _ _ _ ih => exact Function.flatten_spillParts ih

theorem length_eq (h : Derived config function names n p parts) :
    parts.length = function.code.length := by
  induction h with
  | start => exact List.length_map _
  | round event _ _ _ ih => rw [Function.spillParts, Spill.length_parts, ih]

/-- **Each temporary is confined to one part.** -/
theorem confined (h : Derived config function names n p parts) (hregular : function.Regular)
    (havoids : ∀ v ∈ function.vars, names.Avoids v) {t : Name} (ht : t ∈ p.unspillable) :
    ∃ i < parts.length,
      Confined p.function.code t (blockStart parts i) (blockStart parts (i + 1)) := by
  induction h with
  | start => simp [Progress.start] at ht
  | @round n p parts attempt spills event hparts hattempt hspills ih =>
      have hsound := (sound_start hregular havoids).rounds hparts.rounds havoids
      have hplanned : Spill.Planned spills p.function.code (p.function.spillPlan spills p.names) :=
        Function.planned_spill hsound.regular hsound.avoids
      have hflatten := hparts.flatten_eq
      have hlength : (p.function.spillParts spills p.names parts).length = parts.length :=
        Spill.length_parts _ _ _
      have hbound : ∀ i, blockStart parts i ≤ p.function.code.length := by
        intro i
        rw [← hflatten, blockStart]
        exact ((List.take_sublist i parts).flatten).length_le
      simp only [Function.blockStart_spillParts hflatten, Progress.code_spill, hlength]
      rw [Progress.unspillable_spill, Spill.allTemporaries, List.mem_append] at ht
      rcases ht with ht | ht
      · obtain ⟨i, hi, hconfined⟩ := ih ht
        exact ⟨i, hi, hplanned.confined_kept (hsound.neutral hattempt hspills ht) hconfined
          (hbound _)⟩
      · -- the step that the temporary was made for is in one of the parts
        obtain ⟨v, hv, rfl⟩ := List.mem_map.1 ht
        obtain ⟨r, hr, rfl⟩ := List.mem_map.1 hv
        obtain ⟨j, replacements, instruction, hsite, hr⟩ := hplanned.exists_site_of_mem hr
        have hj := (List.getElem?_eq_some_iff.1 hsite.code_eq).1
        rw [← hflatten] at hj
        obtain ⟨i, part, k, hi, hk, rfl⟩ := exists_block hj
        refine ⟨i, (List.getElem?_eq_some_iff.1 hi).1, ?_⟩
        apply (hplanned.confined_temporary hsite hr).mono
        · exact Spill.start_mono _ _ (Nat.le_add_right _ _)
        · rw [blockStart_succ hi]
          exact Spill.start_mono _ _ (by omega)

end Derived

/-- After any number of rounds all temporaries have homes. -/
theorem Rounds.exists_homes (h : Rounds config n (Progress.start function names) p)
    (hregular : function.Regular) (havoids : ∀ v ∈ function.vars, names.Avoids v) :
    ∃ home, Homes p.function.code p.unspillable home :=
  (sound_start hregular havoids).rounds_induction havoids h
    (motive := fun _ p => ∃ home, Homes p.function.code p.unspillable home)
    ⟨_, homes_nil function.code⟩ fun _ _ _ hsound hround hp => hsound.homes_round hround hp

end Allocation

open Allocation (Progress Rounds Called Derived)

/-- **Temporaries stay small over all rounds.**  Take a program that is read, a function of it, and a
round of its allocation that can be analysed.  The code of the round falls into parts, one for each
instruction of the function, with all that the earlier rounds have made of it.  Each temporary so far
is mentioned in one part and no other, and is live only inside it: neither before its first step nor
after its last.  And each temporary conflicts with at most one other. -/
theorem Program.temporaries_confined {text : List Char} {program : Program}
    {config : AllocationConfig} {function : Function} {names : NameSupply} {n : Nat} {p : Progress}
    {result : Liveness} (hread : Program.read text = .ok program)
    (hcalled : Called config (NameSupply.ofTaken config.stem program.vars) program.functions
      function names)
    (hrounds : Rounds config n (Progress.start function names) p)
    (hanalyse : Liveness.analyse p.function = .ok result) :
    (∃ parts, Derived config function names n p parts ∧ parts.flatten = p.function.code ∧
      parts.length = function.code.length ∧
      ∀ t ∈ p.unspillable, ∃ i part, parts[i]? = some part ∧
        (∀ j other, parts[j]? = some other → ((∃ step ∈ other, IsVariableOf step.vars t) ↔ j = i)) ∧
        (∀ q, t ∈ result.liveBefore q →
          blockStart parts i < q ∧ q < blockStart parts i + part.length) ∧
        ∀ q, t ∈ result.liveAfter q →
          blockStart parts i ≤ q ∧ q + 1 < blockStart parts i + part.length) ∧
    ∀ t ∈ p.unspillable, ∀ u ∈ p.unspillable, ∀ w ∈ p.unspillable,
      (Graph.ofLiveness result).interferes t u = true →
      (Graph.ofLiveness result).interferes t w = true → u = w := by
  have hregular : function.Regular := Program.regular_of_called hread hcalled
  have havoids : ∀ v ∈ function.vars, names.Avoids v := fun v hv =>
    Program.avoids_of_called hread hcalled hv
  have hanalysed := Liveness.analysed_of_analyse hanalyse
  constructor
  · obtain ⟨parts, hderived⟩ := hrounds.exists_derived
    refine ⟨parts, hderived, hderived.flatten_eq, hderived.length_eq, ?_⟩
    intro t ht
    obtain ⟨i, hi, hconfined⟩ := hderived.confined hregular havoids ht
    have hpart := List.getElem?_eq_getElem hi
    refine ⟨i, parts[i], hpart, ?_, ?_, ?_⟩
    · intro j other hother
      rw [← hderived.flatten_eq] at hconfined
      exact hconfined.mentioned_iff hpart hother
    · intro q hq
      rw [← blockStart_succ hpart]
      exact hconfined.liveAt q (hanalysed.mem_liveBefore.1 hq)
    · intro q hq
      rw [← blockStart_succ hpart]
      exact hconfined.liveAfter q (hanalysed.mem_liveAfter.1 hq)
  · intro t ht u hu w hw htu htw
    obtain ⟨home, hhomes⟩ := hrounds.exists_homes hregular havoids
    exact hhomes.conflict_unique ht hu hw ((Graph.interferes_iff hanalysed).1 htu).2.2
      ((Graph.interferes_iff hanalysed).1 htw).2.2

/-- A program whose function shifts two variables by each other. -/
def entwined : Program :=
  ⟨"entwined", [.ofCode "entwined" 0 [.assign (.var "n") (.number 1),
    .assign (.var "m") (.number 2), .shift .left (.var "n") (.var "m"),
    .shift .left (.var "m") (.var "n"), .assign (.register "rax") (.var "n"), .ret]]⟩

/-- The first variable is spilled in the first round and the second one in the next.  In the third
round the temporary of the first variable in the second shift is live in the middle of four steps,
where the temporary of the second variable is loaded, and it conflicts with no other temporary. -/
theorem entwined_temporaries_confined :
    ∃ function ∈ entwined.functions, ∃ last result,
      Rounds ⟨0, "%S", .firstSeen⟩ 2
        (Progress.start function (NameSupply.ofTaken "%S" entwined.vars)) last ∧
      Liveness.analyse last.function = .ok result ∧
      (Graph.ofLiveness result).interferes "%S2" "%S6" = true ∧
      (∀ u ∈ last.unspillable, (Graph.ofLiveness result).interferes "%S2" u = true → u = "%S6") ∧
      ∃ parts i part, parts.flatten = last.function.code ∧ parts.length = 6 ∧
        parts[i]? = some part ∧ "%S2" ∈ result.liveBefore 10 ∧
        ∀ q, "%S2" ∈ result.liveBefore q →
          blockStart parts i < q ∧ q < blockStart parts i + part.length := by
  let config : AllocationConfig := ⟨0, "%S", .firstSeen⟩
  let names := NameSupply.ofTaken "%S" entwined.vars
  let first := Progress.start (entwined.functions.head (by decide)) names
  let second := first.spill ["%n"] (.round "entwined" 1 17 2 ["%n"])
  let third := second.spill ["%m"] (.round "entwined" 2 20 2 ["%m"])
  have hread : Program.read ("(@entwined (@entwined 0 (%n <- 1) (%m <- 2) (%n <<= %m) " ++
      "(%m <<= %n) (rax <- %n) (return)))").toList = .ok entwined := by decide +kernel
  have hfirst : first.attempt config = .ok ⟨17, 2, .spills ["%n"]⟩ := by decide +kernel
  have hsecond : second.attempt config = .ok ⟨20, 2, .spills ["%m"]⟩ := by decide +kernel
  have hrounds : Rounds config 2 first third :=
    .tail (.tail (.refl first) ⟨_, _, _, hfirst, rfl, rfl⟩) ⟨_, _, _, hsecond, rfl, rfl⟩
  have hseen : (Liveness.analyse third.function).toOption.any (fun result =>
      (Graph.ofLiveness result).interferes "%S2" "%S6" && (result.liveBefore 10).contains "%S2") =
      true := by decide +kernel
  cases hanalyse : Liveness.analyse third.function with
  | error e => simp [hanalyse, Except.toOption] at hseen
  | ok result =>
      simp only [hanalyse, Except.toOption, Option.any_some, Bool.and_eq_true,
        List.contains_iff_mem] at hseen
      obtain ⟨⟨parts, -, hflatten, hlength, hparts⟩, hunique⟩ :=
        Program.temporaries_confined hread (Called.here _ _ []) hrounds hanalyse
      obtain ⟨i, part, hpart, -, hlive, -⟩ := hparts "%S2" (by decide +kernel)
      refine ⟨_, List.head_mem _, third, result, hrounds, hanalyse, hseen.1, ?_, parts, i, part,
        hflatten, hlength, hpart, hseen.2, hlive⟩
      intro u hu hconflict
      exact hunique "%S2" (by decide +kernel) u hu "%S6" (by decide +kernel) hconflict hseen.1

end RegisterColouring
