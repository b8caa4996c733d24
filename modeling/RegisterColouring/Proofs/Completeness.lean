/-
**Allocation is complete up to spilling.**

When the colouring of a graph fails on names that cannot be spilled, the first of them to fail has
at least as many neighbours as there are registers, and so have all names that are removed after it,
none of which can be spilled either.  In feasible code this cannot be: a temporary fails only
because another one with the same home has the register that is chosen for it, and that one has too
few neighbours.  Since spilling does not change feasibility, a function whose allocation fails on
such names cannot be coloured whatever is spilled.

Main results:

* `RegisterColouring.Graph.degreeIn_lt` — a temporary beside another has few neighbours;
* `RegisterColouring.Graph.colour_ne_error` — **feasible code can be coloured or spilled**;
* `RegisterColouring.Program.allocation_complete` — **allocation is complete up to spilling**.
-/

import RegisterColouring.Proofs.Homes
import RegisterColouring.Proofs.Termination

set_option autoImplicit false

namespace RegisterColouring

/-! ### The registers at a home -/

namespace Belongs

variable {code : List Instruction} {temporaries : List Name} {t u : Name} {i : Nat}
  {instruction : Instruction} {choice : Name → String}
  (h : Belongs code temporaries t i instruction) (hfits : Fits code i instruction choice)

include h hfits

/-- A temporary does not conflict with the register that is chosen for it. -/
theorem not_conflict : ¬ Conflict code t (choice t) := by
  intro hconflict
  rcases h.register _ (hfits.register t) hconflict with
    ⟨hgen, hlive⟩ | ⟨hkill, hlive⟩ | ⟨hshift, hother⟩
  · exact hfits.gen t hgen h.not_register hlive
  · exact hfits.kill t hkill h.not_register hlive
  · exact hother (hfits.shift t hshift h.not_register)

/-- If it is not the amount of a shift, it does not conflict with the register that is chosen for a
second variable that its home reads. -/
theorem not_conflict_second (hu : u ∈ instruction.gen) (hvariable : u ∉ Register.generalPurpose)
    (hshift : instruction.shiftName? ≠ some t) : ¬ Conflict code t (choice u) := by
  intro hconflict
  rcases h.register _ (hfits.register u) hconflict with ⟨-, hlive⟩ | ⟨hkill, hlive⟩ | ⟨hshift', -⟩
  · exact hfits.gen u hu hvariable hlive
  · -- the home overwrites only the temporary, so the register is live before it too
    refine hfits.gen u hu hvariable ((liveAt_iff h.code_eq).2 (Or.inr ⟨?_, hlive⟩))
    intro hregister
    obtain ⟨v, rfl⟩ := h.exists_variable
    rw [(Instruction.of_variable_mem_kill hkill).1, List.mem_singleton] at hregister
    exact h.not_register (hregister ▸ hfits.register u)
  · exact hshift hshift'

end Belongs

section Sharing

variable {code : List Instruction} {temporaries : List Name}
  {home : Name → Nat → Instruction → Prop} {t u w : Name} {i : Nat} {instruction : Instruction}
  {choice : Name → String}

/-- The names that a temporary can conflict with if its home also reads the variable `t`: that one,
and the registers that are chosen for neither of the two. -/
def partners (choice : Name → String) (t u : Name) : List Name :=
  t :: (Register.generalPurpose.erase (choice u)).erase (choice t)

theorem length_partners_lt (hfits : Fits code i instruction choice) (ht : t ∈ instruction.gen)
    (hu : u ∈ instruction.gen) (htvariable : t ∉ Register.generalPurpose)
    (huvariable : u ∉ Register.generalPurpose) (hne : t ≠ u) :
    (partners choice t u).length < Register.count := by
  have hdistinct := hfits.distinct t ht u hu htvariable huvariable hne
  rw [partners, List.length_cons, List.length_erase_of_mem
    ((List.mem_erase_of_ne hdistinct).2 (hfits.register t)),
    List.length_erase_of_mem (hfits.register u)]
  decide

theorem Homes.mem_partners (hhomes : Homes code temporaries home)
    (hfits : Fits code i instruction choice) (hhome : home u i instruction)
    (hu : u ∈ instruction.gen) (ht : t ∈ instruction.gen) (htvariable : t ∉ Register.generalPurpose)
    (hne : t ≠ u) (hshift : instruction.shiftName? ≠ some u) (hconflict : Conflict code u w)
    (hw : w ∈ Register.generalPurpose ∨ w ∈ temporaries) : w ∈ partners choice t u := by
  have hbelongs := hhomes.belongs hhome
  rcases hw with hregister | htemporary
  · have hchosen : w ≠ choice u := by
      rintro rfl
      exact hbelongs.not_conflict hfits hconflict
    have hsecond : w ≠ choice t := by
      rintro rfl
      exact hbelongs.not_conflict_second hfits ht htvariable hshift hconflict
    apply List.mem_cons_of_mem
    exact (List.mem_erase_of_ne hsecond).2 ((List.mem_erase_of_ne hchosen).2 hregister)
  · -- the home reads at most two variables
    obtain ⟨j, other, hother⟩ := hhomes.exists_home w htemporary
    obtain ⟨-, -, hw⟩ := hhomes.together hhome hother hconflict
    rw [Instruction.eq_of_mem_gen hu hw ht hbelongs.not_register
      (hhomes.belongs hother).not_register htvariable hconflict.1 (Ne.symm hne)]
    exact List.mem_cons_self ..

end Sharing

/-! ### Colouring feasible code -/

namespace Graph

/-- **All that is left when a name that cannot be spilled is set aside** are registers and names
that cannot be spilled, and the latter have many neighbours. -/
theorem stuck_stage {graph : Graph} {options : ColouringOptions} {before later : List Removal}
    {removal : Removal} (hsplit : graph.eliminate options = before ++ removal :: later)
    (hoptimistic : removal.isOptimistic = true)
    (hspillable : graph.isSpillable options removal.node = false) :
    ∃ present, (∀ k ∈ present, k < graph.size ∧
        (graph.vocabulary.name k ∈ Register.generalPurpose ∨
          graph.vocabulary.name k ∈ options.unspillable)) ∧
      ∀ k ∈ removal.node :: later.map Removal.node, Register.count ≤ graph.degreeIn present k ∧
        graph.vocabulary.name k ∈ options.unspillable := by
  obtain ⟨present, hpresent, hstage⟩ := eliminate_stage hsplit
  have hlater : ∀ k ∈ removal.node :: later.map Removal.node,
      graph.vocabulary.name k ∈ options.unspillable := by
    intro k hk
    simpa [isSpillable] using hstage.stuck hoptimistic hspillable k hk
  refine ⟨present, ?_, fun k hk => ⟨hstage.hard hoptimistic k hk, hlater k hk⟩⟩
  intro k hk
  obtain ⟨hlt, hbefore⟩ := (hpresent k).1 hk
  refine ⟨hlt, ?_⟩
  by_cases hregister : graph.vocabulary.name k ∈ Register.generalPurpose
  · exact Or.inl hregister
  · exact Or.inr (hlater k (mem_later hsplit (mem_variableNodes.2 ⟨hlt, hregister⟩) hbefore))

variable {function : Function} {result : Liveness} (h : result.Analysed function)

include h

/-- A set of nodes is no larger than a list of their names. -/
theorem size_le_of_names {set : IndexSet} {names : List Name}
    (hset : ∀ k ∈ set, k < result.vocabulary.size ∧ result.vocabulary.name k ∈ names) :
    set.size ≤ names.length := by
  rw [← List.length_map (fun name => (result.vocabulary.index? name).getD 0)]
  apply IndexSet.size_le_of_subset
  intro k hk
  obtain ⟨hlt, hmem⟩ := hset k hk
  refine List.mem_map.2 ⟨_, hmem, ?_⟩
  rw [Vocabulary.index?_name h.nodup hlt, Option.getD_some]

/-- A name that has its colour does not conflict with the register of that colour. -/
theorem not_conflict_of_chosen {colours : List (Option Nat)} {done : List Nat} {u r : Name}
    {node colour : Nat} (hchosen : (ofLiveness result).Chosen colours done)
    (hnode : result.vocabulary.index? u = some node) (hcolour : colourOf colours node = some colour)
    (hr : Register.generalPurpose.idxOf? r = some colour) : ¬ Conflict function.code u r := by
  intro hconflict
  have hregister := List.mem_of_getElem? (idxOf?_register hr)
  have hknown : r ∈ result.vocabulary.names := by
    rw [h.vocabulary_eq, Vocabulary.ofFunction, Vocabulary.mem_names_ofVariables]
    exact Or.inl hregister
  obtain ⟨k, hk⟩ := Vocabulary.exists_index? hknown
  have hlt : k < (ofLiveness result).size := by
    rw [(simple_ofLiveness h).size_eq, vocabulary_ofLiveness]
    exact Vocabulary.lt_of_index? hk
  have hname : (ofLiveness result).vocabulary.name k = r := by
    rw [vocabulary_ofLiveness]
    exact Vocabulary.name_of_index? hk
  apply hchosen.proper node k colour ((mem_row_ofLiveness h hnode hk).2 hconflict) hcolour
  rw [hchosen.register k hlt (hname ▸ hregister), hname, hr]

variable {options : ColouringOptions} {home : Name → Nat → Instruction → Prop}
  (hhomes : Homes function.code options.unspillable home)

include hhomes

/-- **A temporary that shares its home with another has few neighbours** among the registers and the
temporaries. -/
theorem degreeIn_lt {present : IndexSet} {node i : Nat} {instruction : Instruction}
    {choice : Name → String} {t u : Name} (hfits : Fits function.code i instruction choice)
    (hnode : result.vocabulary.index? u = some node) (hhome : home u i instruction)
    (hu : u ∈ instruction.gen) (ht : t ∈ instruction.gen) (htvariable : t ∉ Register.generalPurpose)
    (hne : t ≠ u) (hshift : instruction.shiftName? ≠ some u)
    (hpresent : ∀ k ∈ present, k < result.vocabulary.size ∧
      (result.vocabulary.name k ∈ Register.generalPurpose ∨
        result.vocabulary.name k ∈ options.unspillable)) :
    (ofLiveness result).degreeIn present node < Register.count := by
  have hnames : ∀ k ∈ (ofLiveness result).row node ∩ present, k < result.vocabulary.size ∧
      result.vocabulary.name k ∈ partners choice t u := by
    intro k hk
    obtain ⟨hrow, hk⟩ := IndexSet.mem_inter.1 hk
    obtain ⟨hlt, hkind⟩ := hpresent k hk
    rw [mem_row_ofLiveness h hnode (Vocabulary.index?_name h.nodup hlt)] at hrow
    exact ⟨hlt, hhomes.mem_partners hfits hhome hu ht htvariable hne hshift hrow hkind⟩
  exact Nat.lt_of_le_of_lt (size_le_of_names h hnames)
    (length_partners_lt hfits ht hu htvariable (hhomes.belongs hhome).not_register hne)

/-- **Feasible code can be coloured or spilled.** -/
theorem colour_ne_error (hfeasible : Feasible function.code) (name : String) (e : ColouringError) :
    (ofLiveness result).colour name options ≠ .error e := by
  intro herror
  have hsimple := simple_ofLiveness h
  have hvocabulary := vocabulary_ofLiveness result
  obtain ⟨-, _, hnode, hspillable, before, removal, later, colours, hsplit, rfl, hoptimistic,
    hchosen, hnone⟩ := colour_error hsimple (hvocabulary ▸ h.nodup) herror
  obtain ⟨present, hkinds, hlater⟩ := stuck_stage hsplit hoptimistic hspillable
  have hsize := hsimple.size_eq
  simp only [hsize, hvocabulary] at hkinds hlater
  have hindex : ∀ {k}, k < (ofLiveness result).size →
      result.vocabulary.index? (result.vocabulary.name k) = some k := by
    intro k hk
    rw [hsize, hvocabulary] at hk
    exact Vocabulary.index?_name h.nodup hk
  -- the register that is chosen for the name at its home is taken by a neighbour
  obtain ⟨i, instruction, ht⟩ := hhomes.exists_home _ (hlater _ (List.mem_cons_self ..)).2
  have hbelongs := hhomes.belongs ht
  obtain ⟨choice, hfits⟩ := hfeasible i instruction hbelongs.code_eq
  obtain ⟨colour, hcolour⟩ := exists_colour (hfits.register (result.vocabulary.name removal.node))
  have hregister := idxOf?_register hcolour
  obtain ⟨k, hk, hkcolour⟩ := freeColour?_none hnone (List.getElem?_eq_some_iff.1 hregister).1
  obtain ⟨hklt, hkind⟩ := hchosen.known k colour hkcolour
  rw [mem_row_ofLiveness h (hindex (mem_variableNodes.1 hnode).1) (hindex hklt)] at hk
  rcases hkind with hkregister | hkmem
  · have hkname := hchosen.register k hklt hkregister
    rw [hkcolour, hvocabulary] at hkname
    rw [Option.some_inj.1 ((idxOf?_register hkname.symm).symm.trans hregister)] at hk
    exact hbelongs.not_conflict hfits hk
  · -- the neighbour is another temporary with the same home, and has too few neighbours itself
    obtain ⟨hhard, hkunspillable⟩ := hlater k (List.mem_cons_of_mem _ hkmem)
    obtain ⟨j, other, hu⟩ := hhomes.exists_home _ hkunspillable
    obtain ⟨rfl, htgen, hugen⟩ := hhomes.together ht hu hk
    obtain rfl := Option.some_inj.1 (hbelongs.code_eq.symm.trans (hhomes.belongs hu).code_eq)
    by_cases hshift : instruction.shiftName? = some (result.vocabulary.name k)
    · -- the neighbour conflicts with every register but its own, which is another one
      have hvariable := (hhomes.belongs hu).not_register
      have hother : choice (result.vocabulary.name removal.node) ≠ Register.shiftAmount := by
        rw [← hfits.shift _ hshift hvariable]
        exact hfits.distinct _ htgen _ hugen hbelongs.not_register hvariable hk.1
      have hconflict : Conflict function.code (result.vocabulary.name k)
          (choice (result.vocabulary.name removal.node)) := by
        refine ⟨?_, Or.inr ⟨_, instruction, hbelongs.code_eq, Or.inr (Or.inr (Or.inr (Or.inr (Or.inl
          ⟨hshift, hfits.register _, hother⟩))))⟩⟩
        intro heq
        exact hvariable (heq ▸ hfits.register _)
      exact not_conflict_of_chosen h hchosen (hindex hklt) hkcolour hcolour hconflict
    · have hlt := degreeIn_lt h hhomes hfits (hindex hklt) hu hugen htgen hbelongs.not_register hk.1
        hshift hkinds
      omega

end Graph

/-! ### The rounds of an allocation -/

namespace Allocation

variable {config : AllocationConfig} {function : Function} {names : NameSupply} {p q : Progress}

/-- **What keeps an allocation going**: feasible code, and homes for what cannot be spilled. -/
def Progress.Promising (p : Progress) : Prop :=
  Feasible p.function.code ∧ ∃ home, Homes p.function.code p.unspillable home

/-- A round touches nothing that cannot be spilled. -/
theorem Sound.neutral (h : Sound function names p) {attempt : Attempt} {spills : List Name}
    (hattempt : p.attempt config = .ok attempt) (hspills : attempt.assignment = .spills spills)
    {t : Name} (ht : t ∈ p.unspillable) :
    Spill.Neutral (p.function.spillPlan spills p.names) t := by
  have hplanned : Spill.Planned spills p.function.code (p.function.spillPlan spills p.names) :=
    Function.planned_spill h.regular h.avoids
  intro r hr
  constructor
  · rintro rfl
    obtain ⟨i, replacements, instruction, hsite, hr⟩ := hplanned.exists_site_of_mem hr
    obtain ⟨htarget, -⟩ := (hplanned.replaces i _ _ hsite).victim hr
    exact ((h.spills hattempt hspills).2 _ htarget).1 ht
  · intro heq
    obtain ⟨v, rfl, havoid, -⟩ := h.temporary t ht
    rw [Name.ofVariable_inj] at heq
    exact (p.function.drawn_spill spills p.names).fresh _ (List.mem_map_of_mem hr) (heq ▸ havoid)

/-- What a round that spills makes of the code. -/
theorem Progress.code_spill (p : Progress) (spills : List Name) (event : Event) :
    (p.spill spills event).function.code =
      Spill.expanded (p.function.spillPlan spills p.names) p.function.code :=
  Function.code_spill p.function spills p.names

/-- The temporaries of the round join those of earlier rounds. -/
theorem Progress.unspillable_spill (p : Progress) (spills : List Name) (event : Event) :
    (p.spill spills event).unspillable =
      Spill.allTemporaries p.unspillable (p.function.spillPlan spills p.names) :=
  congrArg (p.unspillable ++ ·) (Function.temporaries_spill p.function spills p.names)

/-- **A round keeps homes for all temporaries.** -/
theorem Sound.homes_round (h : Sound function names p) (hround : Round config p q)
    (hp : ∃ home, Homes p.function.code p.unspillable home) :
    ∃ home, Homes q.function.code q.unspillable home := by
  obtain ⟨attempt, spills, event, hattempt, hspills, rfl⟩ := hround
  obtain ⟨home, hhomes⟩ := hp
  have hplanned : Spill.Planned spills p.function.code (p.function.spillPlan spills p.names) :=
    Function.planned_spill h.regular h.avoids
  rw [Progress.code_spill, Progress.unspillable_spill]
  exact ⟨_, hplanned.homes_expanded (fun t ht => h.neutral hattempt hspills ht) hhomes⟩

theorem Sound.promising_round (h : Sound function names p) (hp : p.Promising)
    (hround : Round config p q) : q.Promising := by
  refine ⟨?_, h.homes_round hround hp.2⟩
  obtain ⟨attempt, spills, event, -, -, rfl⟩ := hround
  have hplanned : Spill.Planned spills p.function.code (p.function.spillPlan spills p.names) :=
    Function.planned_spill h.regular h.avoids
  rw [Progress.code_spill]
  exact hplanned.feasible_iff.2 hp.1

theorem Sound.promising_rounds (h : Sound function names p) (hp : p.Promising) {n : Nat}
    (hrounds : Rounds config n p q) (havoids : ∀ v ∈ function.vars, names.Avoids v) :
    q.Promising :=
  h.rounds_induction (motive := fun _ p => p.Promising) havoids hrounds hp
    fun _ _ _ hsound hround hp => hsound.promising_round hp hround

/-- The round in which an allocation fails on a colouring. -/
theorem exists_colour_error {round : Nat} {cause : ColouringError}
    (h : (function.allocate names config).result = .error (.colouring round cause)) :
    ∃ k last result, Rounds config k (Progress.start function names) last ∧
      Liveness.analyse last.function = .ok result ∧
      (Graph.ofLiveness result).colour last.function.name ⟨config.heuristic, last.unspillable⟩ =
        .error cause := by
  obtain ⟨-, k, hrounds, ⟨-, hend⟩ | ⟨-, hlimit⟩⟩ :=
    runFrom_last config (budget config function) (Progress.start function names)
  · rcases hend with ⟨e, hattempt, he⟩ | ⟨attempt, assigned, -, -, hok⟩
    · obtain rfl : AllocationError.colouring round cause = e := Except.error.inj (h.symm.trans he)
      rcases attempt_eq_error hattempt with
        ⟨other, -, hother⟩ | ⟨result, other, hresult, hcolour, hother⟩
      · exact absurd hother (by simp)
      · rw [(AllocationError.colouring.inj hother).2]
        exact ⟨k, _, result, hrounds, hresult, hcolour⟩
    · exact absurd (h.symm.trans hok) (by simp)
  · exact absurd (h.symm.trans hlimit) (by simp)

/-- **The allocation of feasible code never fails on a colouring.** -/
theorem not_feasible_of_colouring (hregular : function.Regular)
    (havoids : ∀ v ∈ function.vars, names.Avoids v) {round : Nat} {cause : ColouringError}
    (h : (function.allocate names config).result = .error (.colouring round cause)) :
    ¬ Feasible function.code := by
  intro hfeasible
  obtain ⟨k, last, result, hrounds, hresult, herror⟩ := exists_colour_error h
  obtain ⟨hfeasible, home, hhomes⟩ := (sound_start hregular havoids).promising_rounds
    ⟨hfeasible, _, homes_nil function.code⟩ hrounds havoids
  exact Graph.colour_ne_error (Liveness.analysed_of_analyse hresult) hhomes hfeasible _ _ herror

theorem Rounds.analyse_first {n : Nat} (h : Rounds config n p q) (hpos : 0 < n) :
    ∃ result, Liveness.analyse p.function = .ok result := by
  induction h with
  | refl => omega
  | @tail n p q r hrounds hround ih =>
      rcases Nat.eq_zero_or_pos n with rfl | hpos
      · cases hrounds
        obtain ⟨attempt, spills, event, hattempt, -, -⟩ := hround
        obtain ⟨result, -, hresult, -⟩ := attempt_eq_ok hattempt
        exact ⟨result, hresult⟩
      · exact ih hpos

/-- A function whose allocation fails on a colouring can be analysed. -/
theorem analyse_of_colouring {round : Nat} {cause : ColouringError}
    (h : (function.allocate names config).result = .error (.colouring round cause)) :
    ∃ result, Liveness.analyse function = .ok result := by
  obtain ⟨k, last, result, hrounds, hresult, -⟩ := exists_colour_error h
  rcases Nat.eq_zero_or_pos k with rfl | hpos
  · cases hrounds
    exact ⟨result, hresult⟩
  · exact hrounds.analyse_first hpos

end Allocation

/-- **A function that can be coloured once something is spilled is feasible.** -/
theorem Function.feasible_of_spill {function : Function} {targets : List Name} {names : NameSupply}
    {result : Liveness} {colouring : Name → String} (hregular : function.Regular)
    (havoids : ∀ v ∈ function.vars, names.Avoids v)
    (hresult : Liveness.analyse (function.spill targets names).function = .ok result)
    (hcolouring : (Graph.ofLiveness result).IsColouring colouring) : Feasible function.code := by
  have hplanned : Spill.Planned targets function.code (function.spillPlan targets names) :=
    Function.planned_spill hregular havoids
  have hspilled := hcolouring.feasible (Liveness.analysed_of_analyse hresult)
  rw [Function.code_spill] at hspilled
  exact hplanned.feasible_iff.1 hspilled

/-- **Allocation is complete up to spilling.**  If the allocation of a program that is read fails on
names of one of its functions that cannot be coloured, then whatever variables of that function are
spilled, with whatever fresh temporaries, the conflicts that remain leave no way to give each name a
general purpose register. -/
theorem Program.allocation_complete {text : List Char} {program : Program}
    {config : AllocationConfig} {function : Function} {round : Nat} {name : String}
    {nodes : List Name}
    (hread : Program.read text = .ok program) (hmem : function ∈ program.functions)
    (herror : (program.allocate config).result =
      .error ⟨function.name, .colouring round (.unsatisfiable name nodes)⟩)
    (targets : List Name) (names : NameSupply) (hfresh : ∀ v ∈ function.vars, names.Avoids v) :
    ∃ result, Liveness.analyse (function.spill targets names).function = .ok result ∧
      ¬ ∃ colouring, (Graph.ofLiveness result).IsColouring colouring := by
  obtain ⟨failed, supply, hcalled, hname, hfailed⟩ := Program.called_of_allocate_error herror
  -- functions of a program are told apart by their names
  obtain rfl : function = failed :=
    List.inj_on_of_nodup_map (Program.nodup_names hread) hmem hcalled.mem hname
  have hregular : function.Regular :=
    Function.IsParsed.regular (Or.inr (Or.inl ⟨text, program, hread, hmem⟩))
  have hinfeasible := Allocation.not_feasible_of_colouring hregular
    (fun v hv => Program.avoids_of_called hread hcalled hv) hfailed
  obtain ⟨first, hfirst⟩ := Allocation.analyse_of_colouring hfailed
  obtain ⟨result, hresult⟩ := Function.analyse_spill hregular hfresh hfirst
  refine ⟨result, hresult, ?_⟩
  rintro ⟨colouring, hcolouring⟩
  exact hinfeasible (Function.feasible_of_spill hregular hfresh hresult hcolouring)

/-- A function that keeps a variable while all general purpose registers are live. -/
def crowded : Function :=
  .ofCode "crowded" 0 [.assign (.var "x") (.number 1), .arith .add (.register "rax") (.var "x"),
    .arith .add (.register "r10") (.register "r11"), .call (.code (.register "r10")) 6, .ret]

theorem crowded_allocation_complete :
    ∃ result, Liveness.analyse (crowded.spill ["%x"] (.ofTaken "%T" ["x"])).function = .ok result ∧
      ¬ ∃ colouring, (Graph.ofLiveness result).IsColouring colouring := by
  have hread : Program.read ("(@crowded (@crowded 0 (%x <- 1) (rax += %x) (r10 += r11) " ++
      "(call r10 6) (return)))").toList = .ok ⟨"crowded", [crowded]⟩ := rfl
  have herror : ((⟨"crowded", [crowded]⟩ : Program).allocate ⟨0, "%S", .firstSeen⟩).result =
      .error ⟨"crowded", .colouring 2 (.unsatisfiable "crowded" ["%S0", "%S1"])⟩ := rfl
  exact Program.allocation_complete hread (List.mem_singleton.2 rfl) herror ["%x"] _
    fun v hv => Program.avoids_ofTaken hread "%T" (List.mem_singleton.2 rfl) hv

end RegisterColouring
