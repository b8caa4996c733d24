/-
**Where temporaries belong.**

Each temporary of spilled code belongs to one instruction, its home, and is live only there and at
loads and stores around it.  So it conflicts with a register only for what is live at its home, and
two temporaries conflict only if they have the same home, which reads both.  More spilling moves
homes but keeps this true, and gives the new temporaries homes of their own.

Main definitions:

* `RegisterColouring.Belongs` — what is known of a temporary and its home;
* `RegisterColouring.Homes` — homes for all temporaries;
* `RegisterColouring.Spill.rehome` — the homes after more spilling.

Main results:

* `RegisterColouring.Spill.Planned.belongs_kept`,
  `RegisterColouring.Spill.Planned.belongs_temporary` — earlier temporaries and new ones;
* `RegisterColouring.Spill.Planned.homes_expanded` — **after more spilling there are homes again**.
-/

import RegisterColouring.Proofs.Feasibility

set_option autoImplicit false

namespace RegisterColouring

/-- All variables of an instruction are temporaries. -/
def Instruction.Within (temporaries : List Name) (instruction : Instruction) : Prop :=
  ∀ v ∈ instruction.vars, Name.ofVariable v ∈ temporaries

/-- **A temporary and its home.** -/
structure Belongs (code : List Instruction) (temporaries : List Name) (t : Name) (i : Nat)
    (instruction : Instruction) : Prop where
  exists_variable : ∃ v, t = Name.ofVariable v
  code_eq : code[i]? = some instruction
  register : ∀ r ∈ Register.generalPurpose, Conflict code t r →
    (t ∈ instruction.gen ∧ LiveAt code r i) ∨ (t ∈ instruction.kill ∧ LiveAfter code r i) ∨
      (instruction.shiftName? = some t ∧ r ≠ Register.shiftAmount)
  liveAt : ∀ (j : Nat) (other : Instruction), code[j]? = some other → LiveAt code t j →
    (j = i ∧ t ∈ other.gen) ∨ other.Within temporaries
  liveAfter : ∀ (j : Nat) (other : Instruction), code[j]? = some other → LiveAfter code t j →
    (j = i ∧ t ∈ other.kill) ∨ other.Within temporaries

theorem Belongs.not_register {code : List Instruction} {temporaries : List Name} {t : Name}
    {i : Nat} {instruction : Instruction} (h : Belongs code temporaries t i instruction) :
    t ∉ Register.generalPurpose := by
  obtain ⟨v, rfl⟩ := h.exists_variable
  exact Name.ofVariable_not_mem_generalPurpose v

/-- **Homes for all temporaries.** -/
structure Homes (code : List Instruction) (temporaries : List Name)
    (home : Name → Nat → Instruction → Prop) : Prop where
  exists_home : ∀ t ∈ temporaries, ∃ i instruction, home t i instruction
  mem : ∀ {t : Name} {i : Nat} {instruction : Instruction}, home t i instruction → t ∈ temporaries
  belongs : ∀ {t : Name} {i : Nat} {instruction : Instruction}, home t i instruction →
    Belongs code temporaries t i instruction
  together : ∀ {t u : Name} {i j : Nat} {instruction other : Instruction}, home t i instruction →
    home u j other → Conflict code t u → j = i ∧ t ∈ instruction.gen ∧ u ∈ instruction.gen

/-- Without temporaries there is nothing to know. -/
theorem homes_nil (code : List Instruction) : Homes code [] (fun _ _ _ => False) where
  exists_home := by simp
  mem := False.elim
  belongs := False.elim
  together := False.elim

namespace Spill

/-- The homes after more spilling. -/
def rehome (plan : List (List Replacement)) (code : List Instruction)
    (home : Name → Nat → Instruction → Prop) (t : Name) (p : Nat) (step : Instruction) : Prop :=
  ∃ i replacements instruction, Site plan code i replacements instruction ∧
    (home t i instruction ∨ ∃ r ∈ replacements, t = Name.ofVariable r.temporary) ∧
    p = start plan code i + loadCount replacements instruction ∧
    step = instruction.rename (image replacements)

/-- The temporaries after more spilling. -/
def allTemporaries (before : List Name) (plan : List (List Replacement)) : List Name :=
  before ++ (temporaries plan.flatten).map Name.ofVariable

namespace Planned

variable {targets before : List Name} {code : List Instruction} {plan : List (List Replacement)}
  (h : Planned targets code plan) {home : Name → Nat → Instruction → Prop} {i j k : Nat}
  {instruction other step : Instruction} {replacements others : List Replacement} {t u : Name}
  {r : Replacement}

theorem temporary_mem (hsite : Site plan code i replacements instruction) (hr : r ∈ replacements) :
    Name.ofVariable r.temporary ∈ allTemporaries before plan :=
  List.mem_append_right _ (List.mem_map_of_mem (List.mem_map_of_mem (hsite.mem_flatten hr)))

/-- Loads and stores have no other variables. -/
theorem core_or_within {p : Nat} (hp : (expanded plan code)[p]? = some step) :
    (∃ i replacements instruction, Site plan code i replacements instruction ∧
      p = start plan code i + loadCount replacements instruction ∧
      step = instruction.rename (image replacements)) ∨
      step.Within (allTemporaries before plan) := by
  obtain ⟨i, replacements, instruction, k, hsite, hk, rfl⟩ := exists_site hp
  rcases expand_cases hk with ⟨-, r, hr, -, rfl⟩ | ⟨rfl, rfl⟩ | ⟨-, r, hr, -, rfl⟩
  · right
    intro v hv
    rw [Replacement.vars_load, List.mem_singleton] at hv
    exact hv ▸ temporary_mem hsite hr
  · exact Or.inl ⟨i, replacements, instruction, hsite, rfl, rfl⟩
  · right
    intro v hv
    rw [Replacement.vars_store, List.mem_singleton] at hv
    exact hv ▸ temporary_mem hsite hr

include h

theorem within_core (hsite : Site plan code i replacements instruction)
    (hwithin : instruction.Within before) :
    (instruction.rename (image replacements)).Within (allTemporaries before plan) := by
  intro v hv
  rcases (h.replaces i _ _ hsite).mem_vars.1 hv with ⟨hv, -⟩ | hv
  · exact List.mem_append_left _ (hwithin v hv)
  · obtain ⟨r, hr, rfl⟩ := List.mem_map.1 hv
    exact temporary_mem hsite hr

/-- **An earlier temporary belongs to what its home has become.** -/
theorem belongs_kept (hneutral : Neutral plan t) (hbelongs : Belongs code before t i instruction)
    (hsite : Site plan code i replacements instruction) :
    Belongs (expanded plan code) (allTemporaries before plan) t
      (start plan code i + loadCount replacements instruction)
      (instruction.rename (image replacements)) := by
  obtain ⟨hgen, hkill⟩ := h.mem_core_of_neutral hneutral hsite
  refine ⟨hbelongs.exists_variable, hsite.getElem?_expanded (getElem?_expand_core _ _), ?_, ?_, ?_⟩
  · intro r hr hconflict
    have hregister := h.neutral_register hr
    rw [h.conflict_neutral hneutral hregister] at hconflict
    rw [hgen, hkill, h.liveAt_core hregister hsite, h.liveAfter_core hregister hsite,
      h.shiftName?_core_of_neutral hneutral hsite]
    exact hbelongs.register r hr hconflict
  · intro p step hp hlive
    rcases core_or_within hp with ⟨j, others, other, hother, rfl, rfl⟩ | hwithin
    · rw [h.liveAt_core hneutral hother] at hlive
      rcases hbelongs.liveAt j other hother.code_eq hlive with ⟨rfl, hmem⟩ | hwithin
      · obtain ⟨rfl, rfl⟩ := hsite.eq hother
        exact Or.inl ⟨rfl, hgen.2 hmem⟩
      · exact Or.inr (h.within_core hother hwithin)
    · exact Or.inr hwithin
  · intro p step hp hlive
    rcases core_or_within hp with ⟨j, others, other, hother, rfl, rfl⟩ | hwithin
    · rw [h.liveAfter_core hneutral hother] at hlive
      rcases hbelongs.liveAfter j other hother.code_eq hlive with ⟨rfl, hmem⟩ | hwithin
      · obtain ⟨rfl, rfl⟩ := hsite.eq hother
        exact Or.inl ⟨rfl, hkill.2 hmem⟩
      · exact Or.inr (h.within_core hother hwithin)
    · exact Or.inr hwithin

/-- **A new temporary belongs to the instruction that it was made for.** -/
theorem belongs_temporary (hsite : Site plan code i replacements instruction)
    (hr : r ∈ replacements) :
    Belongs (expanded plan code) (allTemporaries before plan) (Name.ofVariable r.temporary)
      (start plan code i + loadCount replacements instruction)
      (instruction.rename (image replacements)) := by
  have hreplaces := h.replaces i _ _ hsite
  refine ⟨⟨r.temporary, rfl⟩, hsite.getElem?_expanded (getElem?_expand_core _ _), ?_, ?_, ?_⟩
  · intro w hw hconflict
    have hregister := h.neutral_register hw
    rw [hreplaces.temporary_mem_gen hr, hreplaces.temporary_mem_kill hr,
      h.liveAt_core hregister hsite, h.liveAfter_core hregister hsite]
    refine (h.conflict_temporary hsite hr hregister hconflict).imp_right fun hcases =>
      hcases.imp_right fun ⟨hshift, _, hother⟩ => ⟨?_, hother⟩
    exact hreplaces.shiftName?_core.2 (Or.inr ⟨r, hr, hshift, rfl⟩)
  · intro p step hp hlive
    rcases core_or_within hp with ⟨j, others, other, hother, rfl, rfl⟩ | hwithin
    · obtain ⟨k, heq, -, hlt, -, hcases⟩ := h.liveAt_temporary hsite hr hlive
      obtain ⟨rfl, rfl⟩ := hother.position_inj hsite (by rw [length_expand]; omega) hlt heq
      obtain ⟨rfl, rfl⟩ := hsite.eq hother
      rw [hreplaces.temporary_mem_gen hr]
      rcases hcases with ⟨-, hgen⟩ | ⟨hlate, -⟩
      · exact Or.inl ⟨rfl, hgen⟩
      · omega
    · exact Or.inr hwithin
  · intro p step hp hlive
    rcases core_or_within hp with ⟨j, others, other, hother, rfl, rfl⟩ | hwithin
    · obtain ⟨k, heq, -, hlt, hcases⟩ := h.liveAfter_temporary hsite hr hlive hp
      obtain ⟨rfl, rfl⟩ := hother.position_inj hsite (by rw [length_expand]; omega) (by omega) heq
      obtain ⟨rfl, rfl⟩ := hsite.eq hother
      rw [hreplaces.temporary_mem_kill hr]
      rcases hcases with ⟨hearly, -⟩ | ⟨-, hkill⟩
      · omega
      · exact Or.inl ⟨rfl, hkill⟩
    · exact Or.inr hwithin

/-- A new temporary and an earlier one conflict only if the home of both reads them. -/
theorem together_temporary (hneutral : ∀ t ∈ before, Neutral plan t) (hu : u ∈ before)
    (hbelongs : Belongs code before u j other)
    (hsite : Site plan code i replacements instruction) (hr : r ∈ replacements)
    (hconflict : Conflict (expanded plan code) (Name.ofVariable r.temporary) u) :
    i = j ∧ r.victim ∈ instruction.gen ∧ u ∈ instruction.gen := by
  have hwithin : ¬ instruction.Within before := by
    intro hwithin
    obtain ⟨-, v, hv, hvictim⟩ := (h.replaces i _ _ hsite).victim hr
    exact (neutral_of_site (hneutral _ (hwithin v hv)) hsite hr).1 hvictim
  rcases h.conflict_temporary hsite hr (hneutral u hu) hconflict with
    ⟨hgen, hlive⟩ | ⟨hkill, hlive⟩ | ⟨-, hregister, -⟩
  · obtain ⟨rfl, hmem⟩ :=
      (hbelongs.liveAt i instruction hsite.code_eq hlive).resolve_right hwithin
    exact ⟨rfl, hgen, hmem⟩
  · -- an instruction overwrites no second variable
    obtain ⟨-, hmem⟩ :=
      (hbelongs.liveAfter i instruction hsite.code_eq hlive).resolve_right hwithin
    rw [((h.replaces i _ _ hsite).of_victim_mem_kill hr hkill).1, List.mem_singleton] at hmem
    exact absurd hmem.symm (neutral_of_site (hneutral u hu) hsite hr).1
  · exact absurd hregister hbelongs.not_register

/-- **After more spilling there are homes again.** -/
theorem homes_expanded (hneutral : ∀ t ∈ before, Neutral plan t) (hhomes : Homes code before home) :
    Homes (expanded plan code) (allTemporaries before plan) (rehome plan code home) where
  exists_home := by
    intro t ht
    rcases List.mem_append.1 ht with ht | ht
    · obtain ⟨i, instruction, hhome⟩ := hhomes.exists_home t ht
      obtain ⟨replacements, hsite⟩ := h.exists_site_at (hhomes.belongs hhome).code_eq
      exact ⟨_, _, i, replacements, instruction, hsite, Or.inl hhome, rfl, rfl⟩
    · obtain ⟨v, hv, rfl⟩ := List.mem_map.1 ht
      obtain ⟨r, hr, rfl⟩ := List.mem_map.1 hv
      obtain ⟨i, replacements, instruction, hsite, hr⟩ := h.exists_site_of_mem hr
      exact ⟨_, _, i, replacements, instruction, hsite, Or.inr ⟨r, hr, rfl⟩, rfl, rfl⟩
  mem := by
    rintro t _ _ ⟨i, replacements, instruction, hsite, hhome | ⟨r, hr, rfl⟩, -, -⟩
    · exact List.mem_append_left _ (hhomes.mem hhome)
    · exact temporary_mem hsite hr
  belongs := by
    rintro t _ _ ⟨i, replacements, instruction, hsite, hhome | ⟨r, hr, rfl⟩, rfl, rfl⟩
    · exact h.belongs_kept (hneutral t (hhomes.mem hhome)) (hhomes.belongs hhome) hsite
    · exact h.belongs_temporary hsite hr
  together := by
    rintro t u _ _ _ _ ⟨i, replacements, instruction, hsite, ht, rfl, rfl⟩
      ⟨j, others, other, hother, hu, rfl, rfl⟩ hconflict
    have hreplaces := h.replaces i _ _ hsite
    suffices hboth : j = i ∧ t ∈ (instruction.rename (image replacements)).gen ∧
        u ∈ (instruction.rename (image replacements)).gen by
      obtain ⟨rfl, hgen⟩ := hboth
      obtain ⟨rfl, rfl⟩ := hsite.eq hother
      exact ⟨rfl, hgen⟩
    have hkept : ∀ {n i instruction}, home n i instruction → Neutral plan n := fun hhome =>
      hneutral _ (hhomes.mem hhome)
    -- each of the two is an earlier temporary or a new one
    rcases ht with ht | ⟨r, hr, rfl⟩ <;> rcases hu with hu | ⟨s, hs, rfl⟩
    · rw [h.conflict_neutral (hkept ht) (hkept hu)] at hconflict
      rw [(h.mem_core_of_neutral (hkept ht) hsite).1, (h.mem_core_of_neutral (hkept hu) hsite).1]
      exact hhomes.together ht hu hconflict
    · obtain ⟨rfl, hs', ht'⟩ := h.together_temporary hneutral (hhomes.mem ht) (hhomes.belongs ht)
        hother hs hconflict.symm
      obtain ⟨rfl, rfl⟩ := hsite.eq hother
      rw [(h.mem_core_of_neutral (hkept ht) hsite).1, hreplaces.temporary_mem_gen hs]
      exact ⟨rfl, ht', hs'⟩
    · obtain ⟨rfl, hr', hu'⟩ := h.together_temporary hneutral (hhomes.mem hu) (hhomes.belongs hu)
        hsite hr hconflict
      rw [(h.mem_core_of_neutral (hkept hu) hsite).1, hreplaces.temporary_mem_gen hr]
      exact ⟨rfl, hr', hu'⟩
    · obtain ⟨rfl, hr', hs'⟩ := h.conflict_temporaries hsite hr hother hs hconflict
      obtain ⟨rfl, rfl⟩ := hsite.eq hother
      rw [hreplaces.temporary_mem_gen hr, hreplaces.temporary_mem_gen hs]
      exact ⟨rfl, hr', hs'⟩

end Planned

end Spill

end RegisterColouring
