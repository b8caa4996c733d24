/-
**Conflicts after spilling.**

Names that spilling does not touch conflict exactly if they did before.  A temporary conflicts with
them only because of what is live around its instruction.  Two temporaries conflict only if they
stand for two variables that the same instruction reads.

Main results:

* `RegisterColouring.Spill.Planned.conflict_neutral` — **names that spilling does not touch**;
* `RegisterColouring.Spill.Planned.conflict_temporary` — temporaries and other names;
* `RegisterColouring.Spill.Planned.conflict_temporaries` — temporaries among each other.
-/

import RegisterColouring.Proofs.Conflicts
import RegisterColouring.Proofs.SpillFlow

set_option autoImplicit false

namespace RegisterColouring

theorem Clash.symm {code : List Instruction} {i : Nat} {instruction : Instruction} {u w : Name}
    (h : Clash code i instruction u w) : Clash code i instruction w u := by
  rcases h with ⟨hu, hw⟩ | ⟨hu, hw⟩ | ⟨hu, hw⟩ | ⟨hu, hw⟩ | hshift | hshift
  · exact Or.inl ⟨hw, hu⟩
  · exact Or.inr (Or.inl ⟨hw, hu⟩)
  · exact Or.inr (Or.inr (Or.inr (Or.inl ⟨hw, hu⟩)))
  · exact Or.inr (Or.inr (Or.inl ⟨hw, hu⟩))
  · exact Or.inr (Or.inr (Or.inr (Or.inr (Or.inr hshift))))
  · exact Or.inr (Or.inr (Or.inr (Or.inr (Or.inl hshift))))

theorem Conflict.symm {code : List Instruction} {u w : Name} (h : Conflict code u w) :
    Conflict code w u := by
  obtain ⟨hne, ⟨hu, hw⟩ | ⟨i, instruction, hi, hclash⟩⟩ := h
  · exact ⟨Ne.symm hne, Or.inl ⟨hw, hu⟩⟩
  · exact ⟨Ne.symm hne, Or.inr ⟨i, instruction, hi, hclash.symm⟩⟩

theorem Instruction.shiftName?_rename {instruction : Instruction} {image : String → String}
    (hregular : instruction.isRegular = true) :
    (instruction.rename image).shiftName? = instruction.shiftName?.map (Name.rename image) := by
  cases instruction with
  | shift op target amount =>
      exact Item.name?_rename (isRegular_iff.1 hregular amount (by simp [operands]))
  | _ => rfl

namespace Spill

/-- **What the instruction on temporaries shifts by.** -/
theorem Replaces.shiftName?_core {targets : List Name} {replacements : List Replacement}
    {instruction : Instruction} (h : Replaces targets replacements instruction) {name : Name} :
    (instruction.rename (image replacements)).shiftName? = some name ↔
      (instruction.shiftName? = some name ∧ ∀ r ∈ replacements, r.victim ≠ name) ∨
        ∃ r ∈ replacements, instruction.shiftName? = some r.victim ∧
          name = Name.ofVariable r.temporary := by
  have hnames : ∀ n ∈ instruction.shiftName?.toList, n ∈ Register.generalPurpose ∨
      ∃ v ∈ instruction.vars, n = Name.ofVariable v := by
    intro n hn
    exact h.tracked (Or.inl (Instruction.shiftName?_mem_gen (Option.mem_toList.1 hn)))
  have hmem : name ∈ instruction.shiftName?.toList.map (Name.rename (image replacements)) ↔ _ :=
    h.mem_map_rename hnames
  rw [Instruction.shiftName?_rename h.regular]
  simpa [Option.map_eq_some_iff] using hmem

namespace Planned

variable {targets : List Name} {code : List Instruction} {plan : List (List Replacement)}
  (h : Planned targets code plan) {i j k : Nat} {instruction other step : Instruction}
  {replacements others : List Replacement} {u w : Name} {r s : Replacement}

/-! ### Names that spilling does not touch -/

section Neutral

variable (hu : Neutral plan u) (hsite : Site plan code i replacements instruction)

include h hu hsite

theorem shiftName?_core_of_neutral :
    (instruction.rename (image replacements)).shiftName? = some u ↔
      instruction.shiftName? = some u := by
  rw [(h.replaces i _ _ hsite).shiftName?_core]
  constructor
  · rintro (⟨hshift, -⟩ | ⟨r, hr, -, heq⟩)
    · exact hshift
    · exact absurd heq.symm (neutral_of_site hu hsite hr).2
  · intro hshift
    exact Or.inl ⟨hshift, fun r hr => (neutral_of_site hu hsite hr).1⟩

/-- Only the instruction on temporaries overwrites a name that spilling does not touch. -/
theorem kill_of_neutral (hk : (expand replacements instruction)[k]? = some step)
    (hkill : u ∈ step.kill) : k = loadCount replacements instruction ∧ u ∈ instruction.kill := by
  rcases expand_cases hk with ⟨-, r, hr, -, rfl⟩ | ⟨hcore, rfl⟩ | ⟨-, r, -, -, rfl⟩
  · rw [Replacement.kill_load, List.mem_singleton] at hkill
    exact absurd hkill.symm (neutral_of_site hu hsite hr).2
  · exact ⟨hcore, (h.mem_core_of_neutral hu hsite).2.1 hkill⟩
  · simp at hkill

/-- Only the instruction on temporaries shifts. -/
theorem shiftName?_of_neutral (hk : (expand replacements instruction)[k]? = some step)
    (hshift : step.shiftName? = some u) : instruction.shiftName? = some u := by
  rcases expand_cases hk with ⟨-, r, -, -, rfl⟩ | ⟨-, rfl⟩ | ⟨-, r, -, -, rfl⟩
  · simp [Replacement.load, Instruction.shiftName?] at hshift
  · exact (h.shiftName?_core_of_neutral hu hsite).1 hshift
  · simp [Replacement.store, Instruction.shiftName?] at hshift

end Neutral

include h in
/-- What clashes at a step clashes at its instruction, among names that spilling does not touch. -/
theorem clash_of_expanded (hu : Neutral plan u) (hw : Neutral plan w)
    (hsite : Site plan code i replacements instruction)
    (hk : (expand replacements instruction)[k]? = some step)
    (hclash : Clash (expanded plan code) (start plan code i + k) step u w) :
    Clash code i instruction u w := by
  have hlt := (List.getElem?_eq_some_iff.1 hk).1
  -- up to the instruction on temporaries liveness is as before the instruction, then as after
  rcases hclash with ⟨hu', hw'⟩ | ⟨hu', hw'⟩ | ⟨hu', hw'⟩ | ⟨hu', hw'⟩ | ⟨hshift, hw'⟩ |
    ⟨hshift, hu'⟩
  · rcases Nat.lt_or_ge (loadCount replacements instruction) k with hlate | hearly
    · rw [h.liveAt_late hu hsite hlate hlt] at hu'
      rw [h.liveAt_late hw hsite hlate hlt] at hw'
      exact Or.inr (Or.inl ⟨hu', hw'⟩)
    · rw [h.liveAt_early hu hsite hearly] at hu'
      rw [h.liveAt_early hw hsite hearly] at hw'
      exact Or.inl ⟨hu', hw'⟩
  · rcases Nat.lt_or_ge k (loadCount replacements instruction) with hearly | hlate
    · rw [h.liveAfter_early hu hsite hearly] at hu'
      rw [h.liveAfter_early hw hsite hearly] at hw'
      exact Or.inl ⟨hu', hw'⟩
    · rw [h.liveAfter_late hu hsite hlate hlt] at hu'
      rw [h.liveAfter_late hw hsite hlate hlt] at hw'
      exact Or.inr (Or.inl ⟨hu', hw'⟩)
  · obtain ⟨hcore, hkill⟩ := h.kill_of_neutral hu hsite hk hu'
    rw [h.liveAfter_late hw hsite (Nat.le_of_eq hcore.symm) hlt] at hw'
    exact Or.inr (Or.inr (Or.inl ⟨hkill, hw'⟩))
  · obtain ⟨hcore, hkill⟩ := h.kill_of_neutral hw hsite hk hw'
    rw [h.liveAfter_late hu hsite (Nat.le_of_eq hcore.symm) hlt] at hu'
    exact Or.inr (Or.inr (Or.inr (Or.inl ⟨hu', hkill⟩)))
  · exact Or.inr (Or.inr (Or.inr (Or.inr (Or.inl
      ⟨h.shiftName?_of_neutral hu hsite hk hshift, hw'⟩))))
  · exact Or.inr (Or.inr (Or.inr (Or.inr (Or.inr
      ⟨h.shiftName?_of_neutral hw hsite hk hshift, hu'⟩))))

include h in
/-- What clashed at an instruction clashes at the instruction on temporaries. -/
theorem clash_core (hu : Neutral plan u) (hw : Neutral plan w)
    (hsite : Site plan code i replacements instruction) (hclash : Clash code i instruction u w) :
    Clash (expanded plan code) (start plan code i + loadCount replacements instruction)
      (instruction.rename (image replacements)) u w := by
  unfold Clash
  rw [h.liveAt_core hu hsite, h.liveAt_core hw hsite, h.liveAfter_core hu hsite,
    h.liveAfter_core hw hsite,
    (h.mem_core_of_neutral hu hsite).2, (h.mem_core_of_neutral hw hsite).2,
    h.shiftName?_core_of_neutral hu hsite, h.shiftName?_core_of_neutral hw hsite]
  exact hclash

include h in
/-- **Names that spilling does not touch conflict exactly if they did before.** -/
theorem conflict_neutral (hu : Neutral plan u) (hw : Neutral plan w) :
    Conflict (expanded plan code) u w ↔ Conflict code u w := by
  refine and_congr_right fun _ => or_congr_right ?_
  constructor
  · rintro ⟨p, step, hp, hclash⟩
    obtain ⟨i, replacements, instruction, k, hsite, hk, rfl⟩ := exists_site hp
    exact ⟨i, instruction, hsite.code_eq, h.clash_of_expanded hu hw hsite hk hclash⟩
  · rintro ⟨i, instruction, hi, hclash⟩
    obtain ⟨replacements, hsite⟩ := h.exists_site_at hi
    exact ⟨_, _, hsite.getElem?_expanded (getElem?_expand_core _ _),
      h.clash_core hu hw hsite hclash⟩

/-! ### Temporaries -/

section Temporary

variable (hsite : Site plan code i replacements instruction) (hr : r ∈ replacements)

include h hsite hr

theorem shiftName?_temporary {p : Nat} (hp : (expanded plan code)[p]? = some step)
    (hshift : step.shiftName? = some (Name.ofVariable r.temporary)) :
    instruction.shiftName? = some r.victim := by
  obtain ⟨j, others, other, k, hother, hk, rfl⟩ := exists_site hp
  obtain ⟨rfl, -⟩ := h.temporary_read hsite hr hother hk (Instruction.shiftName?_mem_gen hshift)
  obtain ⟨rfl, rfl⟩ := hsite.eq hother
  have hreplaces := h.replaces j _ _ hsite
  rcases expand_cases hk with ⟨-, s, -, -, rfl⟩ | ⟨-, rfl⟩ | ⟨-, s, -, -, rfl⟩
  · simp [Replacement.load, Instruction.shiftName?] at hshift
  · rcases hreplaces.shiftName?_core.1 hshift with ⟨hold, -⟩ | ⟨s, hs, hvictim, heq⟩
    · exact absurd (Instruction.shiftName?_mem_gen hold) (hreplaces.temporary_not_tracked hr).1
    · rw [Name.ofVariable_inj] at heq
      rw [hvictim, hreplaces.eq_of_temporary_eq hs hr heq.symm]
  · simp [Replacement.store, Instruction.shiftName?] at hshift

/-- **Why a temporary conflicts with a name that spilling does not touch**: the name is live where
the temporary's variable is read or overwritten, or the variable is the amount of a shift. -/
theorem conflict_temporary (hw : Neutral plan w)
    (hconflict : Conflict (expanded plan code) (Name.ofVariable r.temporary) w) :
    (r.victim ∈ instruction.gen ∧ LiveAt code w i) ∨
      (r.victim ∈ instruction.kill ∧ LiveAfter code w i) ∨
      (instruction.shiftName? = some r.victim ∧ w ∈ Register.generalPurpose ∧
        w ≠ Register.shiftAmount) := by
  obtain ⟨-, ⟨hregister, -⟩ | ⟨p, step, hp, hclash⟩⟩ := hconflict
  · exact absurd hregister (Name.ofVariable_not_mem_generalPurpose _)
  · rcases hclash with ⟨ht, hlive⟩ | ⟨ht, hlive⟩ | ⟨ht, hlive⟩ | ⟨ht, hkill⟩ | ⟨hshift, hregister⟩ |
      ⟨-, hregister, -⟩
    · obtain ⟨k, rfl, -, hlt, -, ⟨hearly, hgen⟩ | ⟨hlate, hkill⟩⟩ := h.liveAt_temporary hsite hr ht
      · exact Or.inl ⟨hgen, (h.liveAt_early hw hsite hearly).1 hlive⟩
      · exact Or.inr (Or.inl ⟨hkill, (h.liveAt_late hw hsite hlate hlt).1 hlive⟩)
    · obtain ⟨k, rfl, -, hlt, ⟨hearly, hgen⟩ | ⟨hlate, hkill⟩⟩ :=
        h.liveAfter_temporary hsite hr ht hp
      · exact Or.inl ⟨hgen, (h.liveAfter_early hw hsite hearly).1 hlive⟩
      · exact Or.inr (Or.inl ⟨hkill, (h.liveAfter_late hw hsite hlate (by omega)).1 hlive⟩)
    · obtain ⟨j, others, other, k, hother, hk, rfl⟩ := exists_site hp
      obtain ⟨rfl, hcases⟩ := h.temporary_written hsite hr hother hk ht
      obtain ⟨rfl, rfl⟩ := hsite.eq hother
      have hlt := (List.getElem?_eq_some_iff.1 hk).1
      rcases hcases with ⟨hearly, hgen⟩ | ⟨hcore, hkill⟩
      · exact Or.inl ⟨hgen, (h.liveAfter_early hw hsite hearly).1 hlive⟩
      · exact Or.inr (Or.inl
          ⟨hkill, (h.liveAfter_late hw hsite (Nat.le_of_eq hcore.symm) hlt).1 hlive⟩)
    · -- the instruction would overwrite both the name and the variable
      obtain ⟨k, rfl, hk, -, hcases⟩ := h.liveAfter_temporary hsite hr ht hp
      obtain ⟨hcore, hkill⟩ := h.kill_of_neutral hw hsite hk hkill
      rcases hcases with ⟨hearly, -⟩ | ⟨-, hvictim⟩
      · omega
      · rw [((h.replaces i _ _ hsite).of_victim_mem_kill hr hvictim).1,
          List.mem_singleton] at hkill
        exact absurd hkill.symm (neutral_of_site hw hsite hr).1
    · exact Or.inr (Or.inr ⟨h.shiftName?_temporary hsite hr hp hshift, hregister⟩)
    · exact absurd hregister (Name.ofVariable_not_mem_generalPurpose _)

omit hr in
/-- Two temporaries that are live at the same step stand for variables that the instruction reads,
since it overwrites no two. -/
theorem both_read {early late : Prop} (hr : r ∈ replacements) (hs : s ∈ replacements) (hne : r ≠ s)
    (hsides : early → ¬ late)
    (hcases : (early ∧ r.victim ∈ instruction.gen) ∨ (late ∧ r.victim ∈ instruction.kill))
    (hcases' : (early ∧ s.victim ∈ instruction.gen) ∨ (late ∧ s.victim ∈ instruction.kill)) :
    r.victim ∈ instruction.gen ∧ s.victim ∈ instruction.gen := by
  have hreplaces := h.replaces i _ _ hsite
  rcases hcases with ⟨hearly, hgen⟩ | ⟨hlate, hkill⟩
  · rcases hcases' with ⟨-, hgen'⟩ | ⟨hlate, -⟩
    · exact ⟨hgen, hgen'⟩
    · exact absurd hlate (hsides hearly)
  · rcases hcases' with ⟨hearly, -⟩ | ⟨-, hkill'⟩
    · exact absurd hlate (hsides hearly)
    · rw [(hreplaces.of_victim_mem_kill hr hkill).1, List.mem_singleton] at hkill'
      exact absurd (List.inj_on_of_nodup_map hreplaces.nodup_victims hr hs hkill'.symm) hne

/-- A temporary that is overwritten where another is live stands, like it, for a variable that their
instruction reads. -/
theorem written_where_live (hother : Site plan code j others other) (hs : s ∈ others)
    (hne : r ≠ s) {p : Nat} (hp : (expanded plan code)[p]? = some step)
    (hkill : Name.ofVariable r.temporary ∈ step.kill)
    (hlive : LiveAfter (expanded plan code) (Name.ofVariable s.temporary) p) :
    j = i ∧ r.victim ∈ instruction.gen ∧ s.victim ∈ instruction.gen := by
  obtain ⟨l, rfl, hl, -, hcases'⟩ := h.liveAfter_temporary hother hs hlive hp
  obtain ⟨rfl, hcases⟩ := h.temporary_written hsite hr hother hl hkill
  obtain ⟨rfl, rfl⟩ := hsite.eq hother
  refine ⟨rfl, h.both_read hsite hr hs hne (fun hearly => Nat.not_le_of_lt hearly) ?_ hcases'⟩
  exact hcases.imp_right fun hcore => ⟨Nat.le_of_eq hcore.1.symm, hcore.2⟩

/-- **Two temporaries conflict only if they stand for two variables that one instruction reads.** -/
theorem conflict_temporaries (hother : Site plan code j others other) (hs : s ∈ others)
    (hconflict : Conflict (expanded plan code) (Name.ofVariable r.temporary)
      (Name.ofVariable s.temporary)) :
    j = i ∧ r.victim ∈ instruction.gen ∧ s.victim ∈ instruction.gen := by
  obtain ⟨hne, ⟨hregister, -⟩ | ⟨p, step, hp, hclash⟩⟩ := hconflict
  · exact absurd hregister (Name.ofVariable_not_mem_generalPurpose _)
  have hrs : r ≠ s := by
    rintro rfl
    exact hne rfl
  rcases hclash with ⟨ht, hu⟩ | ⟨ht, hu⟩ | ⟨ht, hu⟩ | ⟨ht, hu⟩ | ⟨-, hregister, -⟩ |
    ⟨-, hregister, -⟩
  · obtain ⟨k, rfl, -, hk, -, hcases⟩ := h.liveAt_temporary hsite hr ht
    obtain ⟨l, heq, -, hl, -, hcases'⟩ := h.liveAt_temporary hother hs hu
    obtain ⟨rfl, rfl⟩ := hsite.position_inj hother hk hl heq
    obtain ⟨rfl, rfl⟩ := hsite.eq hother
    exact ⟨rfl, h.both_read hsite hr hs hrs (fun hearly => Nat.not_lt_of_le hearly) hcases hcases'⟩
  · obtain ⟨k, rfl, -, hk, hcases⟩ := h.liveAfter_temporary hsite hr ht hp
    obtain ⟨l, heq, -, hl, hcases'⟩ := h.liveAfter_temporary hother hs hu hp
    obtain ⟨rfl, rfl⟩ := hsite.position_inj hother (by omega) (by omega) heq
    obtain ⟨rfl, rfl⟩ := hsite.eq hother
    exact ⟨rfl, h.both_read hsite hr hs hrs (fun hearly => Nat.not_le_of_lt hearly) hcases hcases'⟩
  · exact h.written_where_live hsite hr hother hs hrs hp ht hu
  · obtain ⟨rfl, hgen', hgen⟩ := h.written_where_live hother hs hsite hr (Ne.symm hrs) hp hu ht
    obtain ⟨rfl, rfl⟩ := hsite.eq hother
    exact ⟨rfl, hgen, hgen'⟩
  · exact absurd hregister (Name.ofVariable_not_mem_generalPurpose _)
  · exact absurd hregister (Name.ofVariable_not_mem_generalPurpose _)

end Temporary

end Planned

end Spill

end RegisterColouring
