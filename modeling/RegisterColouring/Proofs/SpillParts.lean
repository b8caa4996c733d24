/-
**Spilling part by part.**

Code that is put together from parts can be spilled one part after the other.  With one part for
each instruction, this gives the code that stands for each instruction of a spilled function.  A
name that spilling leaves alone, a register or a variable that is not to be spilled, is live before
the first step that stands for an instruction exactly if it was live before the instruction, and live
after the last one exactly if it was live after it; and two such names conflict exactly if they did.

Main definitions:

* `RegisterColouring.Spill.parts` — what spilling makes of each part of the code;
* `RegisterColouring.Function.spillParts`, `RegisterColouring.Function.spillBlocks` — the same for the
  code of a function, in any parts and in one part for each instruction.

Main results:

* `RegisterColouring.Spill.flatten_parts` — the spilled parts are the spilled code;
* `RegisterColouring.Spill.blockStart_parts` — where they start;
* `RegisterColouring.Function.spilling_undisturbed` — **spilling does not disturb the names it leaves
  alone**.
-/

import RegisterColouring.Proofs.Grammar
import RegisterColouring.Proofs.SpillAnalysis
import RegisterColouring.Proofs.SpillConflicts

set_option autoImplicit false

namespace RegisterColouring

/-! ### Lists of blocks, cut short -/

section Blocks

variable {α : Type}

theorem take_blockStart (blocks : List (List α)) (i : Nat) :
    blocks.flatten.take (blockStart blocks i) = (blocks.take i).flatten := by
  have hsplit : blocks.flatten = (blocks.take i).flatten ++ (blocks.drop i).flatten := by
    rw [← List.flatten_append, List.take_append_drop]
  rw [hsplit, blockStart, List.take_left]

/-- Blocks of one element start at their own number. -/
theorem blockStart_singletons {list : List α} {i : Nat} (hi : i ≤ list.length) :
    blockStart (list.map fun a => [a]) i = i := by
  rw [blockStart, ← List.map_take, ← List.flatMap_def, List.flatMap_singleton', List.length_take,
    Nat.min_eq_left hi]

end Blocks

namespace Spill

/-! ### Parts of the code -/

theorem code_append (targets : List Name) (state : State) (list more : List Instruction) :
    code targets state (list ++ more) =
      ((code targets state list).1 ++ (code targets (code targets state list).2 more).1,
        (code targets (code targets state list).2 more).2) := by
  induction list generalizing state with
  | nil => rfl
  | cons instruction rest ih =>
      simp only [List.cons_append, code, ih, List.append_assoc]

/-- **What spilling makes of each part of the code.** -/
def parts (targets : List Name) : State → List (List Instruction) → List (List Instruction)
  | _, [] => []
  | state, part :: rest =>
    let (spilled, state) := code targets state part
    spilled :: parts targets state rest

/-- **The spilled parts are the spilled code.** -/
theorem flatten_parts (targets : List Name) (state : State) (list : List (List Instruction)) :
    (parts targets state list).flatten = (code targets state list.flatten).1 := by
  induction list generalizing state with
  | nil => rfl
  | cons part rest ih => rw [parts, List.flatten_cons, List.flatten_cons, code_append, ih]

theorem length_parts (targets : List Name) (state : State) (list : List (List Instruction)) :
    (parts targets state list).length = list.length := by
  induction list generalizing state with
  | nil => rfl
  | cons part rest ih => rw [parts, List.length_cons, List.length_cons, ih]

theorem take_parts (targets : List Name) (state : State) (list : List (List Instruction)) (i : Nat) :
    (parts targets state list).take i = parts targets state (list.take i) := by
  induction list generalizing state i with
  | nil => simp [parts]
  | cons part rest ih =>
      cases i with
      | zero => rfl
      | succ i => rw [parts, List.take_succ_cons, List.take_succ_cons, parts, ih]

theorem take_plan (targets : List Name) (state : State) (list : List Instruction) (i : Nat) :
    (plan targets state list).take i = plan targets state (list.take i) := by
  induction list generalizing state i with
  | nil => simp [plan]
  | cons instruction rest ih =>
      cases i with
      | zero => rfl
      | succ i => rw [plan, List.take_succ_cons, List.take_succ_cons, plan, ih]

/-- The block of an instruction starts after what stands for the instructions before it. -/
theorem start_plan (targets : List Name) (state : State) (list : List Instruction) (i : Nat) :
    start (plan targets state list) list i = (code targets state (list.take i)).1.length := by
  rw [start, blockStart, List.take_zipWith, take_plan, ← code_eq]

/-- **A spilled part starts where the block of its first instruction does.** -/
theorem blockStart_parts (targets : List Name) (state : State) (list : List (List Instruction))
    (i : Nat) :
    blockStart (parts targets state list) i =
      start (plan targets state list.flatten) list.flatten (blockStart list i) := by
  rw [start_plan, take_blockStart, ← flatten_parts, ← take_parts, blockStart]

namespace Planned

variable {targets : List Name} {function : Function} {plan : List (List Replacement)}
  {name : Name}

/-- **A name of the function that is not to be spilled is left alone.** -/
theorem neutral_of_known (h : Planned targets function.code plan)
    (hname : name ∈ (Vocabulary.ofFunction function).names) (htarget : name ∉ targets) :
    Neutral plan name := by
  intro r hr
  constructor
  · rintro rfl
    obtain ⟨i, replacements, instruction, hsite, hr⟩ := h.exists_site_of_mem hr
    exact htarget ((h.replaces i _ _ hsite).victim hr).1
  · rintro rfl
    exact h.temporary_not_known hr hname

end Planned

end Spill

/-! ### Spilled functions -/

namespace Function

/-- What spilling makes of each part of the code of a function. -/
def spillParts (function : Function) (targets : List Name) (names : NameSupply)
    (parts : List (List Instruction)) : List (List Instruction) :=
  Spill.parts targets ⟨function.locals, [], names, []⟩ parts

/-- **The code that stands for each instruction of a spilled function.** -/
def spillBlocks (function : Function) (targets : List Name) (names : NameSupply) :
    List (List Instruction) :=
  function.spillParts targets names (function.code.map fun instruction => [instruction])

variable {function : Function} {targets : List Name} {names : NameSupply}

theorem flatten_spillParts {parts : List (List Instruction)}
    (hparts : parts.flatten = function.code) :
    (function.spillParts targets names parts).flatten =
      (function.spill targets names).function.code := by
  rw [spillParts, Spill.flatten_parts, hparts]
  rfl

theorem blockStart_spillParts {parts : List (List Instruction)}
    (hparts : parts.flatten = function.code) (i : Nat) :
    blockStart (function.spillParts targets names parts) i =
      Spill.start (function.spillPlan targets names) function.code (blockStart parts i) := by
  rw [spillParts, Spill.blockStart_parts, hparts]
  rfl

theorem flatten_singletons (function : Function) :
    (function.code.map fun instruction => [instruction]).flatten = function.code := by
  rw [← List.flatMap_def, List.flatMap_singleton']

theorem length_spillBlocks (function : Function) (targets : List Name) (names : NameSupply) :
    (function.spillBlocks targets names).length = function.code.length := by
  rw [spillBlocks, spillParts, Spill.length_parts, List.length_map]

/-- What stands for an instruction is its block. -/
theorem blockStart_spillBlocks {i : Nat} (hi : i ≤ function.code.length) :
    blockStart (function.spillBlocks targets names) i =
      Spill.start (function.spillPlan targets names) function.code i := by
  rw [spillBlocks, blockStart_spillParts function.flatten_singletons, blockStart_singletons hi]

theorem length_of_spillBlocks {i : Nat} {block : List Instruction} {instruction : Instruction}
    {replacements : List Spill.Replacement}
    (hblock : (function.spillBlocks targets names)[i]? = some block)
    (hsite : Spill.Site (function.spillPlan targets names) function.code i replacements
      instruction) :
    block.length = (Spill.expand replacements instruction).length := by
  have hlt := (List.getElem?_eq_some_iff.1 hsite.code_eq).1
  have hnext := blockStart_succ hblock
  rw [blockStart_spillBlocks hlt, blockStart_spillBlocks (Nat.le_of_lt hlt), hsite.start_succ]
    at hnext
  omega

/-- **Spilling does not disturb the names it leaves alone.**  A function that is read and can be
analysed can be analysed after spilling, and its code is then put together from the code that stands
for each of its instructions.  A name of the function that is not to be spilled is live before the
first step that stands for an instruction exactly if it was live before the instruction, and after
the last step exactly if it was live after it; and two such names conflict exactly if they did. -/
theorem spilling_undisturbed {result : Liveness} (hparsed : function.IsParsed)
    (hanalyse : Liveness.analyse function = .ok result)
    (havoids : ∀ v ∈ function.vars, names.Avoids v) :
    let blocks := function.spillBlocks targets names
    ∃ result', Liveness.analyse (function.spill targets names).function = .ok result' ∧
      (function.spill targets names).function.code = blocks.flatten ∧
      blocks.length = function.code.length ∧
      (∀ i block, blocks[i]? = some block → block ≠ [] ∧
        ∀ u ∈ result.vocabulary.names, u ∉ targets →
          (u ∈ result.liveBefore i ↔ u ∈ result'.liveBefore (blockStart blocks i)) ∧
          (u ∈ result.liveAfter i ↔
            u ∈ result'.liveAfter (blockStart blocks i + (block.length - 1)))) ∧
      ∀ u ∈ result.vocabulary.names, u ∉ targets → ∀ w ∈ result.vocabulary.names, w ∉ targets →
        (Graph.ofLiveness result').interferes u w = (Graph.ofLiveness result).interferes u w := by
  intro blocks
  have hregular : function.Regular := hparsed.regular
  have hplanned : Spill.Planned targets function.code (function.spillPlan targets names) :=
    planned_spill hregular havoids
  obtain ⟨result', hanalyse'⟩ : ∃ result',
      Liveness.analyse (function.spill targets names).function = .ok result' :=
    analyse_spill hregular havoids hanalyse
  have hresult := Liveness.analysed_of_analyse hanalyse
  have hresult' := Liveness.analysed_of_analyse hanalyse'
  have hcode := function.code_spill targets names
  have hneutral : ∀ u ∈ result.vocabulary.names, u ∉ targets →
      Spill.Neutral (function.spillPlan targets names) u := by
    intro u hu htarget
    exact hplanned.neutral_of_known (hresult.vocabulary_eq ▸ hu) htarget
  refine ⟨result', hanalyse', (flatten_spillParts function.flatten_singletons).symm,
    function.length_spillBlocks targets names, ?_, ?_⟩
  · intro i block hblock
    have hlt : i < function.code.length := by
      rw [← function.length_spillBlocks targets names]
      exact (List.getElem?_eq_some_iff.1 hblock).1
    obtain ⟨replacements, hsite⟩ := hplanned.exists_site_at (List.getElem?_eq_getElem hlt)
    have hlength := length_of_spillBlocks hblock hsite
    have hexpand := Spill.length_expand replacements function.code[i]
    refine ⟨List.ne_nil_of_length_pos (by omega), ?_⟩
    intro u hu htarget
    rw [blockStart_spillBlocks (Nat.le_of_lt hlt), hresult.mem_liveBefore, hresult'.mem_liveBefore,
      hresult.mem_liveAfter, hresult'.mem_liveAfter, hcode,
      hplanned.liveAt_start (hneutral u hu htarget) hlt,
      hplanned.liveAfter_late (hneutral u hu htarget) hsite (by omega) (by omega)]
    exact ⟨Iff.rfl, Iff.rfl⟩
  · intro u hu hutarget w hw hwtarget
    have hknown : ∀ name ∈ result.vocabulary.names, name ∉ targets →
        name ∈ result'.vocabulary.names := by
      intro name hname htarget
      rw [hresult.vocabulary_eq, Vocabulary.ofFunction, Vocabulary.mem_names_ofVariables] at hname
      rw [hresult'.vocabulary_eq, Vocabulary.ofFunction, Vocabulary.mem_names_ofVariables]
      refine hname.imp_right ?_
      rintro ⟨v, hv, rfl⟩
      exact ⟨v, (mem_vars_spill hregular havoids).2 (Or.inl ⟨hv, htarget⟩), rfl⟩
    rw [Bool.eq_iff_iff, Graph.interferes_iff hresult, Graph.interferes_iff hresult', hcode,
      hplanned.conflict_neutral (hneutral u hu hutarget) (hneutral w hw hwtarget)]
    simp only [hu, hw, hknown u hu hutarget, hknown w hw hwtarget]

/-- A function that sums the numbers below its argument. -/
def summing : Function :=
  .ofCode "summing" 1 [.assign (.var "i") (.number 0), .assign (.var "sum") (.number 0),
    .label "top", .jumpIf .lessOrEqual (.register "rdi") (.var "i") "done",
    .arith .add (.var "sum") (.var "i"), .step (.var "i") .up, .goto "top", .label "done",
    .assign (.register "rax") (.var "sum"), .ret]

/-- When the counter is spilled, the sum is still alive around the code that stands for the step of
the counter, and not before it is set; and it conflicts with the argument as it did. -/
theorem summing_undisturbed :
    ∃ result', Liveness.analyse (summing.spill ["%i"] (.ofTaken "S" summing.vars)).function =
        .ok result' ∧
      (summing.spillBlocks ["%i"] (.ofTaken "S" summing.vars))[5]? = some
        [.assign (.var "S3") (Item.slot 0), .step (.var "S3") .up,
          .assign (Item.slot 0) (.var "S3")] ∧
      "%sum" ∈ result'.liveBefore 8 ∧ "%sum" ∈ result'.liveAfter 10 ∧
      "%sum" ∉ result'.liveBefore 0 ∧
      (Graph.ofLiveness result').interferes "%sum" "rdi" = true := by
  have hparsed : summing.IsParsed := Or.inl ⟨("(@summing 1 (%i <- 0) (%sum <- 0) :top " ++
    "(cjump rdi <= %i :done) (%sum += %i) (%i++) (goto :top) :done (rax <- %sum) " ++
    "(return))").toList, by decide +kernel⟩
  have havoids : ∀ v ∈ summing.vars, (NameSupply.ofTaken "S" summing.vars).Avoids v := fun v hv =>
    Or.inl (show v ∈ (NameSupply.ofTaken "S" summing.vars).taken from hv)
  obtain ⟨result', hanalyse', -, -, hlive, hconflict⟩ := spilling_undisturbed hparsed
    (show Liveness.analyse summing = .ok _ from rfl) havoids
  have hblock : (summing.spillBlocks ["%i"] (.ofTaken "S" summing.vars))[5]? = some
      [.assign (.var "S3") (Item.slot 0), .step (.var "S3") .up,
        .assign (Item.slot 0) (.var "S3")] := by decide
  have hfirst : (summing.spillBlocks ["%i"] (.ofTaken "S" summing.vars))[0]? = some
      [.assign (.var "S0") (.number 0), .assign (Item.slot 0) (.var "S0")] := by decide
  refine ⟨result', hanalyse', hblock, ?_, ?_, ?_, ?_⟩
  · exact ((hlive 5 _ hblock).2 "%sum" (by decide +kernel) (by decide)).1.1 (by decide +kernel)
  · exact ((hlive 5 _ hblock).2 "%sum" (by decide +kernel) (by decide)).2.1 (by decide +kernel)
  · exact mt ((hlive 0 _ hfirst).2 "%sum" (by decide +kernel) (by decide)).1.2
      (by decide +kernel)
  · rw [hconflict "%sum" (by decide +kernel) (by decide) "rdi" (by decide +kernel) (by decide)]
    decide +kernel

end Function

end RegisterColouring
