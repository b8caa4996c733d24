/-
**What spilling cannot help with.**

Spilling shortens the lives of variables but not those of registers.  So at each instruction,
whatever is spilled, the variables that it reads need different registers that are not live before
it, the variable that it overwrites needs one that is not live after it, and the amount of a shift
needs its own register.  A function at each of whose instructions there are such registers is
feasible.  A function whose graph can be coloured is feasible, and spilling changes nothing about
it.

Main definitions:

* `RegisterColouring.Graph.IsColouring` — an assignment of registers to the names of a graph;
* `RegisterColouring.Fits` — registers for the variables of one instruction;
* `RegisterColouring.Feasible` — such registers at each instruction.

Main results:

* `RegisterColouring.Graph.IsColouring.feasible` — a function that can be coloured is feasible;
* `RegisterColouring.Spill.Planned.feasible_iff` — **spilling does not change feasibility**.
-/

import RegisterColouring.Proofs.SpillConflicts

set_option autoImplicit false

namespace RegisterColouring

/-! ### Registers for the variables of an instruction -/

/-- Registers for the variables of one instruction. -/
structure Fits (code : List Instruction) (i : Nat) (instruction : Instruction)
    (choice : Name → String) : Prop where
  register : ∀ name, choice name ∈ Register.generalPurpose
  gen : ∀ name ∈ instruction.gen, name ∉ Register.generalPurpose → ¬ LiveAt code (choice name) i
  kill : ∀ name ∈ instruction.kill, name ∉ Register.generalPurpose →
    ¬ LiveAfter code (choice name) i
  shift : ∀ name, instruction.shiftName? = some name → name ∉ Register.generalPurpose →
    choice name = Register.shiftAmount
  distinct : ∀ u ∈ instruction.gen, ∀ w ∈ instruction.gen, u ∉ Register.generalPurpose →
    w ∉ Register.generalPurpose → u ≠ w → choice u ≠ choice w

/-- **At each instruction there are registers for its variables.** -/
def Feasible (code : List Instruction) : Prop :=
  ∀ (i : Nat) (instruction : Instruction), code[i]? = some instruction →
    ∃ choice, Fits code i instruction choice

/-! ### Colourings -/

namespace Graph

/-- An assignment of general purpose registers to the names of a graph: registers stand for
themselves, and names that interfere get different registers. -/
structure IsColouring (graph : Graph) (colouring : Name → String) : Prop where
  register : ∀ name ∈ Register.generalPurpose, colouring name = name
  mem : ∀ name ∈ graph.vocabulary.names, colouring name ∈ Register.generalPurpose
  proper : ∀ u w, graph.interferes u w = true → colouring u ≠ colouring w

namespace IsColouring

variable {function : Function} {result : Liveness} {colouring : Name → String} {u w : Name}

/-- A name does not conflict with its register. -/
theorem not_conflict (hcolouring : (ofLiveness result).IsColouring colouring)
    (h : result.Analysed function) (hu : u ∈ result.vocabulary.names) :
    ¬ Conflict function.code u (colouring u) := by
  intro hconflict
  have hregister : colouring u ∈ Register.generalPurpose :=
    hcolouring.mem u (by rwa [vocabulary_ofLiveness])
  have hknown : colouring u ∈ result.vocabulary.names := by
    rw [h.vocabulary_eq, Vocabulary.ofFunction, Vocabulary.mem_names_ofVariables]
    exact Or.inl hregister
  apply hcolouring.proper u (colouring u) ((interferes_iff h).2 ⟨hu, hknown, hconflict⟩)
  exact (hcolouring.register _ hregister).symm

/-- **A function that can be coloured is feasible.** -/
theorem feasible (hcolouring : (ofLiveness result).IsColouring colouring)
    (h : result.Analysed function) : Feasible function.code := by
  intro i instruction hi
  have hknown : ∀ name, name ∈ instruction.gen ∨ name ∈ instruction.kill →
      name ∈ result.vocabulary.names := h.known instruction (List.mem_of_getElem? hi)
  have hregister : ∀ name ∈ result.vocabulary.names, colouring name ∈ Register.generalPurpose :=
    fun name hname => hcolouring.mem name (by rwa [vocabulary_ofLiveness])
  have hne : ∀ {name}, name ∈ result.vocabulary.names → name ∉ Register.generalPurpose →
      name ≠ colouring name := by
    intro name hname hvariable heq
    exact hvariable (heq ▸ hregister name hname)
  have hclash : ∀ {name}, name ∈ result.vocabulary.names → name ∉ Register.generalPurpose →
      ¬ Clash function.code i instruction name (colouring name) := by
    intro name hname hvariable hclash
    exact hcolouring.not_conflict h hname ⟨hne hname hvariable, Or.inr ⟨i, instruction, hi, hclash⟩⟩
  -- names that do not occur in the function may get any register
  refine ⟨fun name => if name ∈ result.vocabulary.names then colouring name else
    Register.shiftAmount, ?_, ?_, ?_, ?_, ?_⟩
  · intro name
    split
    · next hname => exact hregister name hname
    · exact Register.shiftAmount_mem
  · intro name hgen hvariable hlive
    have hname := hknown name (Or.inl hgen)
    rw [if_pos hname] at hlive
    exact hclash hname hvariable (Or.inl ⟨LiveAt.read hi hgen, hlive⟩)
  · intro name hkill hvariable hlive
    have hname := hknown name (Or.inr hkill)
    rw [if_pos hname] at hlive
    exact hclash hname hvariable (Or.inr (Or.inr (Or.inl ⟨hkill, hlive⟩)))
  · intro name hshift hvariable
    have hname := hknown name (Or.inl (Instruction.shiftName?_mem_gen hshift))
    rw [if_pos hname]
    by_contra hother
    exact hclash hname hvariable
      (Or.inr (Or.inr (Or.inr (Or.inr (Or.inl ⟨hshift, hregister name hname, hother⟩)))))
  · intro u hu w hw _ _ huw
    have hu' := hknown u (Or.inl hu)
    have hw' := hknown w (Or.inl hw)
    rw [if_pos hu', if_pos hw']
    have hconflict : Conflict function.code u w :=
      ⟨huw, Or.inr ⟨i, instruction, hi, Or.inl ⟨LiveAt.read hi hu, LiveAt.read hi hw⟩⟩⟩
    exact hcolouring.proper u w ((interferes_iff h).2 ⟨hu', hw', hconflict⟩)

end IsColouring

end Graph

/-! ### Spilling -/

namespace Spill

/-- The name that a name stands for after some replacements. -/
def origin (replacements : List Replacement) (name : Name) : Name :=
  match replacements.find? (fun r => Name.ofVariable r.temporary == name) with
  | some r => r.victim
  | none => name

namespace Replaces

variable {targets : List Name} {replacements : List Replacement} {instruction : Instruction}
  (h : Replaces targets replacements instruction)

include h

theorem origin_temporary {r : Replacement} (hr : r ∈ replacements) :
    origin replacements (Name.ofVariable r.temporary) = r.victim := by
  unfold origin
  split
  · next s hs =>
    have heq := List.find?_some hs
    rw [beq_iff_eq, Name.ofVariable_inj] at heq
    rw [h.eq_of_temporary_eq (List.mem_of_find?_eq_some hs) hr heq]
  · next hnone =>
    have hfound := List.find?_eq_none.1 hnone r hr
    simp at hfound

/-- Of the names of the instruction, each stands for itself after it has been replaced. -/
theorem origin_rename {name : Name} (hname : name ∈ instruction.gen ∨ name ∈ instruction.kill) :
    origin replacements (Name.rename (image replacements) name) = name := by
  rcases h.rename_cases (h.tracked hname) with ⟨-, hrename⟩ | ⟨r, hr, rfl, hrename⟩
  · have hnone : replacements.find? (fun r => Name.ofVariable r.temporary == name) = none := by
      rw [List.find?_eq_none]
      intro r hr heq
      rw [beq_iff_eq] at heq
      obtain ⟨hgen, hkill⟩ := h.temporary_not_tracked hr
      rw [heq] at hgen hkill
      exact hname.elim hgen hkill
    rw [hrename, origin, hnone]
  · rw [hrename, h.origin_temporary hr]

/-- A variable of the instruction is not replaced by a register. -/
theorem rename_not_register {name : Name} (hname : name ∈ instruction.gen ∨ name ∈ instruction.kill)
    (hvariable : name ∉ Register.generalPurpose) :
    Name.rename (image replacements) name ∉ Register.generalPurpose := by
  obtain ⟨v, -, rfl⟩ := (h.tracked hname).resolve_left hvariable
  rw [Name.rename_ofVariable]
  exact Name.ofVariable_not_mem_generalPurpose _

end Replaces

namespace Planned

variable {targets : List Name} {code : List Instruction} {plan : List (List Replacement)}
  (h : Planned targets code plan) {i : Nat} {instruction : Instruction}
  {replacements : List Replacement} {choice : Name → String}

include h

/-- Spilling does not touch registers. -/
theorem neutral_register {name : Name} (hname : name ∈ Register.generalPurpose) :
    Neutral plan name := by
  intro r hr
  obtain ⟨i, replacements, instruction, hsite, hr⟩ := h.exists_site_of_mem hr
  obtain ⟨-, v, -, hv⟩ := (h.replaces i _ _ hsite).victim hr
  constructor
  · rintro rfl
    exact absurd (hv ▸ hname) (Name.ofVariable_not_mem_generalPurpose v)
  · rintro rfl
    exact absurd hname (Name.ofVariable_not_mem_generalPurpose _)

variable (hsite : Site plan code i replacements instruction)

include hsite

/-- Registers for the variables of an instruction are registers for its temporaries. -/
theorem fits_core (hfits : Fits code i instruction choice) :
    Fits (expanded plan code) (start plan code i + loadCount replacements instruction)
      (instruction.rename (image replacements))
      (fun name => choice (origin replacements name)) := by
  have hreplaces := h.replaces i _ _ hsite
  have hregister : ∀ {name}, Name.rename (image replacements) name ∉ Register.generalPurpose →
      name ∉ Register.generalPurpose := by
    intro name hvariable hname
    exact hvariable (by rwa [Name.rename_register hname])
  refine ⟨fun name => hfits.register _, ?_, ?_, ?_, ?_⟩
  · intro name hgen hvariable
    rw [Instruction.gen_rename hreplaces.regular, List.mem_map] at hgen
    obtain ⟨n, hn, rfl⟩ := hgen
    rw [hreplaces.origin_rename (Or.inl hn),
      h.liveAt_core (h.neutral_register (hfits.register n)) hsite]
    exact hfits.gen n hn (hregister hvariable)
  · intro name hkill hvariable
    rw [Instruction.kill_rename hreplaces.regular, List.mem_map] at hkill
    obtain ⟨n, hn, rfl⟩ := hkill
    rw [hreplaces.origin_rename (Or.inr hn),
      h.liveAfter_core (h.neutral_register (hfits.register n)) hsite]
    exact hfits.kill n hn (hregister hvariable)
  · intro name hshift hvariable
    rw [Instruction.shiftName?_rename hreplaces.regular, Option.map_eq_some_iff] at hshift
    obtain ⟨n, hn, rfl⟩ := hshift
    rw [hreplaces.origin_rename (Or.inl (Instruction.shiftName?_mem_gen hn))]
    exact hfits.shift n hn (hregister hvariable)
  · intro u hu w hw hu' hw' huw
    rw [Instruction.gen_rename hreplaces.regular, List.mem_map] at hu hw
    obtain ⟨a, ha, rfl⟩ := hu
    obtain ⟨b, hb, rfl⟩ := hw
    rw [hreplaces.origin_rename (Or.inl ha), hreplaces.origin_rename (Or.inl hb)]
    apply hfits.distinct a ha b hb (hregister hu') (hregister hw')
    rintro rfl
    exact huw rfl

/-- Registers for the temporaries of an instruction are registers for its variables. -/
theorem fits_of_core (hfits : Fits (expanded plan code)
      (start plan code i + loadCount replacements instruction)
      (instruction.rename (image replacements)) choice) :
    Fits code i instruction (fun name => choice (Name.rename (image replacements) name)) := by
  have hreplaces := h.replaces i _ _ hsite
  have hgen : ∀ {n}, n ∈ instruction.gen →
      Name.rename (image replacements) n ∈ (instruction.rename (image replacements)).gen := by
    intro n hn
    rw [Instruction.gen_rename hreplaces.regular]
    exact List.mem_map_of_mem hn
  refine ⟨fun name => hfits.register _, ?_, ?_, ?_, ?_⟩
  · intro n hn hvariable
    rw [← h.liveAt_core (h.neutral_register (hfits.register _)) hsite]
    exact hfits.gen _ (hgen hn) (hreplaces.rename_not_register (Or.inl hn) hvariable)
  · intro n hn hvariable
    have hkill : Name.rename (image replacements) n ∈
        (instruction.rename (image replacements)).kill := by
      rw [Instruction.kill_rename hreplaces.regular]
      exact List.mem_map_of_mem hn
    rw [← h.liveAfter_core (h.neutral_register (hfits.register _)) hsite]
    exact hfits.kill _ hkill (hreplaces.rename_not_register (Or.inr hn) hvariable)
  · intro n hn hvariable
    have hmem := Instruction.shiftName?_mem_gen hn
    apply hfits.shift _ _ (hreplaces.rename_not_register (Or.inl hmem) hvariable)
    rw [Instruction.shiftName?_rename hreplaces.regular, hn, Option.map_some]
  · intro a ha b hb ha' hb' hab
    apply hfits.distinct _ (hgen ha) _ (hgen hb) (hreplaces.rename_not_register (Or.inl ha) ha')
      (hreplaces.rename_not_register (Or.inl hb) hb')
    intro heq
    have horigin := congrArg (origin replacements) heq
    rw [hreplaces.origin_rename (Or.inl ha), hreplaces.origin_rename (Or.inl hb)] at horigin
    exact hab horigin

/-- A load and a store can use the register of the variable. -/
theorem fits_expand {k : Nat} {step : Instruction} (hfits : Fits code i instruction choice)
    (hk : (expand replacements instruction)[k]? = some step) :
    Fits (expanded plan code) (start plan code i + k) step
      (fun name => choice (origin replacements name)) := by
  have hlt := (List.getElem?_eq_some_iff.1 hk).1
  have hreplaces := h.replaces i _ _ hsite
  have hneutral : ∀ name, Neutral plan (choice name) := fun name =>
    h.neutral_register (hfits.register name)
  have hvictim : ∀ r ∈ replacements, r.victim ∉ Register.generalPurpose := by
    intro r hr hregister
    exact (neutral_of_site (h.neutral_register hregister) hsite hr).1 rfl
  rcases expand_cases hk with ⟨hearly, r, hr, hgen, rfl⟩ | ⟨rfl, rfl⟩ | ⟨hlate, r, hr, hkill, rfl⟩
  · refine ⟨fun name => hfits.register _, by simp, ?_, ?_, by simp⟩
    · intro name hname _
      rw [Replacement.kill_load, List.mem_singleton] at hname
      rw [hname, hreplaces.origin_temporary hr, h.liveAfter_early (hneutral _) hsite hearly]
      exact hfits.gen r.victim hgen (hvictim r hr)
    · simp [Replacement.load, Instruction.shiftName?]
  · exact h.fits_core hsite hfits
  · refine ⟨fun name => hfits.register _, ?_, by simp, ?_, by simp⟩
    · intro name hname _
      rw [Replacement.gen_store, List.mem_singleton] at hname
      rw [hname, hreplaces.origin_temporary hr, h.liveAt_late (hneutral _) hsite hlate hlt]
      exact hfits.kill r.victim hkill (hvictim r hr)
    · simp [Replacement.store, Instruction.shiftName?]

omit hsite in
/-- **Spilling does not change feasibility.** -/
theorem feasible_iff : Feasible (expanded plan code) ↔ Feasible code := by
  constructor
  · intro hfeasible i instruction hi
    obtain ⟨replacements, hsite⟩ := h.exists_site_at hi
    obtain ⟨choice, hfits⟩ := hfeasible _ _
      (hsite.getElem?_expanded (getElem?_expand_core replacements instruction))
    exact ⟨_, h.fits_of_core hsite hfits⟩
  · intro hfeasible p step hp
    obtain ⟨i, replacements, instruction, k, hsite, hk, rfl⟩ := exists_site hp
    obtain ⟨choice, hfits⟩ := hfeasible i instruction hsite.code_eq
    exact ⟨_, h.fits_expand hsite hfits hk⟩

end Planned

end Spill

end RegisterColouring
