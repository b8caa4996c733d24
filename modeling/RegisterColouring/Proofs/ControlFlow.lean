/-
**Control flow.**

Control goes from an instruction to the next one or to the label it jumps to.  This module states
that relation on the code itself, without a table of labels, and shows that the table and the lists
of successors compute it: the table exists exactly if no label is defined twice, the lists exist
exactly if every jump has a label to go to, and then an instruction's list holds exactly the
positions that control can go to.

Main definitions:

* `RegisterColouring.Instruction.label?`, `RegisterColouring.Instruction.jump?`,
  `RegisterColouring.Instruction.falls` — how an instruction takes part in control flow;
* `RegisterColouring.Flow` — control can go from one position to another.

Main results:

* `RegisterColouring.Function.labels_ok_iff`, `RegisterColouring.Function.lookup_labels` — the table
  of labels;
* `RegisterColouring.Function.successors_ok_iff`, `RegisterColouring.Function.mem_successors_iff` —
  the lists of successors.
-/

import Mathlib.Data.List.Nodup
import RegisterColouring.Flow.Control
import RegisterColouring.Proofs.Names

set_option autoImplicit false

namespace RegisterColouring

namespace Instruction

/-- The label that an instruction defines. -/
def label? : Instruction → Option String
  | label name => some name
  | _ => none

/-- The label that an instruction can jump to. -/
def jump? : Instruction → Option String
  | goto target => some target
  | jumpIf _ _ _ target => some target
  | _ => none

/-- Whether control can go on to the next instruction. -/
def falls : Instruction → Bool
  | goto _ => false
  | instruction => !instruction.isTerminal

theorem label?_eq_some_iff {instruction : Instruction} {name : String} :
    instruction.label? = some name ↔ instruction = label name := by
  cases instruction <;> simp [label?]

end Instruction

/-- **Control can go from one position of the code to another**: to the next instruction, or to the
label of a jump. -/
inductive Flow (code : List Instruction) : Nat → Nat → Prop
  | next {i : Nat} {instruction : Instruction} (hi : code[i]? = some instruction)
      (hfalls : instruction.falls = true) (hlt : i + 1 < code.length) : Flow code i (i + 1)
  | jump {i j : Nat} {instruction : Instruction} {name : String} (hi : code[i]? = some instruction)
      (hjump : instruction.jump? = some name) (hj : code[j]? = some (.label name)) : Flow code i j

theorem Flow.lt {code : List Instruction} {i j : Nat} (h : Flow code i j) : j < code.length := by
  cases h with
  | next hi hfalls hlt => exact hlt
  | jump hi hjump hj => exact (List.getElem?_eq_some_iff.1 hj).1

theorem Flow.exists_instruction {code : List Instruction} {i j : Nat} (h : Flow code i j) :
    ∃ instruction, code[i]? = some instruction := by
  cases h with
  | next hi hfalls hlt => exact ⟨_, hi⟩
  | jump hi hjump hj => exact ⟨_, hi⟩

namespace Function

/-! ### The table of labels -/

/-- The labels of code that starts at a given position, with their positions. -/
def labelTable (index : Nat) : List Instruction → List (String × Nat)
  | [] => []
  | instruction :: code =>
    (instruction.label?.map fun name => (name, index)).toList ++ labelTable (index + 1) code

theorem keys_labelTable (index : Nat) (code : List Instruction) :
    (labelTable index code).map Prod.fst = code.filterMap Instruction.label? := by
  induction code generalizing index with
  | nil => rfl
  | cons instruction code ih =>
      rw [labelTable, List.map_append, ih, List.filterMap_cons]
      cases instruction.label? <;> rfl

theorem mem_labelTable {index p : Nat} {name : String} {code : List Instruction} :
    (name, p) ∈ labelTable index code ↔ ∃ i, p = index + i ∧ code[i]? = some (.label name) := by
  induction code generalizing index with
  | nil => simp [labelTable]
  | cons instruction code ih =>
      rw [labelTable, List.mem_append, ih, Option.mem_toList, Option.map_eq_some_iff]
      constructor
      · rintro (⟨n, hn, heq⟩ | ⟨i, rfl, hi⟩)
        · obtain ⟨rfl, rfl⟩ := Prod.mk.inj heq
          exact ⟨0, rfl, by rw [Instruction.label?_eq_some_iff.1 hn]; rfl⟩
        · exact ⟨i + 1, by omega, hi⟩
      · rintro ⟨i, rfl, hi⟩
        cases i with
        | zero =>
            left
            simp only [List.getElem?_cons_zero, Option.some.injEq] at hi
            exact ⟨name, by rw [hi]; rfl, rfl⟩
        | succ i => exact Or.inr ⟨i, by omega, hi⟩

/-- The reader of labels goes on exactly as long as no label is defined twice. -/
theorem labelsFrom_eq_ok_iff {name : String} {known labels : List (String × Nat)} {index : Nat}
    {code : List Instruction} (hknown : (known.map Prod.fst).Nodup) :
    labelsFrom name known index code = .ok labels ↔
      labels = known ++ labelTable index code ∧
        (known.map Prod.fst ++ code.filterMap Instruction.label?).Nodup := by
  -- known labels are general here, since the reader adds to them as it goes
  induction code generalizing known index with
  | nil => simp [labelsFrom, labelTable, hknown, eq_comm]
  | cons instruction code ih =>
      cases hlabel : instruction.label? with
      | none =>
          have hstep : labelsFrom name known index (instruction :: code) =
              labelsFrom name known (index + 1) code := by
            cases instruction <;> simp [Instruction.label?] at hlabel <;> rfl
          rw [hstep, ih hknown, List.filterMap_cons_none hlabel, labelTable, hlabel]
          rfl
      | some label =>
          rw [List.filterMap_cons_some hlabel, Instruction.label?_eq_some_iff.1 hlabel, labelsFrom]
          by_cases hmem : label ∈ known.map Prod.fst
          · have hsome : (known.lookup label).isSome = true := by
              obtain ⟨entry, hentry, rfl⟩ := List.mem_map.1 hmem
              exact List.lookup_isSome_iff.2 ⟨entry, hentry, by simp⟩
            rw [if_pos hsome]
            simp only [reduceCtorEq, false_iff, not_and]
            intro _ hnodup
            exact (List.nodup_append.1 hnodup).2.2 label hmem label (List.mem_cons_self ..) rfl
          · have hnone : ¬ (known.lookup label).isSome = true := by
              rw [List.lookup_isSome_iff]
              rintro ⟨entry, hentry, heq⟩
              exact hmem (List.mem_map.2 ⟨entry, hentry, (eq_of_beq heq).symm⟩)
            rw [if_neg hnone]
            have hknown' : ((known ++ [(label, index)]).map Prod.fst).Nodup := by
              rw [List.map_append, List.nodup_append]
              refine ⟨hknown, by simp, ?_⟩
              rintro a ha b hb rfl
              simp only [List.map_cons, List.map_nil, List.mem_singleton] at hb
              exact hmem (hb ▸ ha)
            rw [ih hknown']
            simp [labelTable, Instruction.label?]

/-- **There is a table of labels exactly if no label is defined twice.** -/
theorem labels_ok_iff {function : Function} :
    (∃ labels, function.labels = .ok labels) ↔
      (function.code.filterMap Instruction.label?).Nodup := by
  simp [labels, labelsFrom_eq_ok_iff]

/-- The table of labels holds the position of every label. -/
theorem lookup_labels {function : Function} {labels : List (String × Nat)}
    (h : function.labels = .ok labels) {name : String} {p : Nat} :
    labels.lookup name = some p ↔ function.code[p]? = some (.label name) := by
  have hkeys : (([] : List (String × Nat)).map Prod.fst).Nodup := List.nodup_nil
  obtain ⟨rfl, hnodup⟩ := (labelsFrom_eq_ok_iff hkeys).1 h
  have htable : ((labelTable 0 function.code).map Prod.fst).Nodup := by
    rw [keys_labelTable]
    simpa using hnodup
  rw [List.nil_append, lookup_eq_some_iff_mem htable, mem_labelTable]
  simp

theorem labelsFrom_error {name : String} {known : List (String × Nat)} {index : Nat}
    {code : List Instruction} {e : AnalysisError}
    (h : labelsFrom name known index code = .error e) :
    ∃ index label, e = .duplicateLabel name index label := by
  fun_induction labelsFrom name known index code with
  | case1 => simp at h
  | case2 known index label code hknown =>
      simp only [Except.error.injEq] at h
      exact ⟨index, label, h.symm⟩
  | case3 known index label code hknown ih => exact ih h
  | case4 known index instruction code hlabel ih => exact ih h

/-! ### Lists of successors -/

variable {labels : List (String × Nat)} {length index : Nat} {instruction : Instruction}

/-- The position that a jump goes to, if the instruction is one. -/
def jumpPosition? (labels : List (String × Nat)) (instruction : Instruction) : Option Nat :=
  instruction.jump?.bind fun name => labels.lookup name

/-- The successors of an instruction: the position it jumps to, then the next one. -/
theorem successorsOf_eq_ok_iff {successors : List Nat} :
    successorsOf labels length index instruction = .ok successors ↔
      (jumpPosition? labels instruction).toList ++
          (if instruction.falls = true then next length index else []) = successors ∧
        ∀ name, instruction.jump? = some name → (labels.lookup name).isSome = true := by
  cases instruction with
  | goto target =>
      simp only [successorsOf, jumpPosition?, Instruction.jump?, Instruction.falls]
      cases hlookup : labels.lookup target <;> simp [hlookup, -List.lookup_isSome_iff]
  | jumpIf op left right target =>
      simp only [successorsOf, jumpPosition?, Instruction.jump?, Instruction.falls,
        Instruction.isTerminal]
      cases hlookup : labels.lookup target <;> simp [hlookup, -List.lookup_isSome_iff]
  | call callee arguments =>
      simp only [successorsOf, jumpPosition?, Instruction.jump?, Instruction.falls]
      by_cases hterminal : (Instruction.call callee arguments).isTerminal = true <;>
        simp [hterminal]
  | _ =>
      simp [successorsOf, jumpPosition?, Instruction.jump?, Instruction.falls,
        Instruction.isTerminal]

@[simp] theorem mem_next {j : Nat} :
    j ∈ next length index ↔ j = index + 1 ∧ index + 1 < length := by
  unfold next
  split <;> simp_all

/-- The lists of successors, one for each instruction. -/
theorem successorsFrom_eq_ok {name : String} {code : List Instruction} {all : List (List Nat)}
    (h : successorsFrom name labels length index code = .ok all) :
    all.length = code.length ∧
      ∀ i instruction, code[i]? = some instruction → ∃ successors, all[i]? = some successors ∧
        successorsOf labels length (index + i) instruction = .ok successors := by
  induction code generalizing index all with
  | nil =>
      simp only [successorsFrom, Except.ok.injEq] at h
      simp [← h]
  | cons first code ih =>
      rw [successorsFrom] at h
      split at h
      · simp at h
      · next here hhere =>
        split at h
        · next rest hrest =>
          simp only [Except.ok.injEq] at h
          obtain ⟨hlength, hcode⟩ := ih hrest
          refine ⟨by simp [← h, hlength], ?_⟩
          intro i instruction hi
          cases i with
          | zero =>
              simp only [List.getElem?_cons_zero, Option.some.injEq] at hi
              exact ⟨here, by simp [← h], by rw [← hi]; exact hhere⟩
          | succ i =>
              obtain ⟨successors, hget, hof⟩ := hcode i instruction hi
              refine ⟨successors, by simp [← h, hget], ?_⟩
              rwa [show index + (i + 1) = index + 1 + i by omega]
        · simp at h

theorem successorsFrom_ok {name : String} {code : List Instruction}
    (h : ∀ instruction ∈ code, ∀ target, instruction.jump? = some target →
      (labels.lookup target).isSome = true) :
    ∃ all, successorsFrom name labels length index code = .ok all := by
  induction code generalizing index with
  | nil => exact ⟨[], rfl⟩
  | cons instruction code ih =>
      obtain ⟨rest, hrest⟩ :
          ∃ rest, successorsFrom name labels length (index + 1) code = .ok rest :=
        ih fun i hi => h i (List.mem_cons_of_mem _ hi)
      obtain ⟨here, hhere⟩ : ∃ here, successorsOf labels length index instruction = .ok here :=
        ⟨_, successorsOf_eq_ok_iff.2 ⟨rfl, h instruction (List.mem_cons_self ..)⟩⟩
      exact ⟨here :: rest, by rw [successorsFrom, hhere, hrest]⟩

theorem successorsFrom_error {name : String} {code : List Instruction} {e : AnalysisError}
    (h : successorsFrom name labels length index code = .error e) :
    ∃ index label, e = .unknownLabel name index label := by
  fun_induction successorsFrom name labels length index code with
  | case1 => simp at h
  | case2 index instruction code label hlabel =>
      simp only [Except.error.injEq] at h
      exact ⟨index, label, h.symm⟩
  | case3 => simp at h
  | case4 index instruction code here hhere e' hrest ih =>
      exact ih (by rw [hrest, h])

/-- **There are lists of successors exactly if every jump has a label to go to.** -/
theorem successors_ok_iff {function : Function} (hlabels : function.labels = .ok labels) :
    (∃ all, function.successors labels = .ok all) ↔
      ∀ instruction ∈ function.code, ∀ name, instruction.jump? = some name →
        .label name ∈ function.code := by
  have hlookup : ∀ name, (labels.lookup name).isSome = true ↔ .label name ∈ function.code := by
    intro name
    rw [Option.isSome_iff_exists, List.mem_iff_getElem?]
    exact exists_congr fun p => lookup_labels hlabels
  constructor
  · rintro ⟨all, hall⟩ instruction hmem name hjump
    obtain ⟨i, hi⟩ := List.mem_iff_getElem?.1 hmem
    obtain ⟨successors, -, hof⟩ := (successorsFrom_eq_ok hall).2 i instruction hi
    exact (hlookup name).1 ((successorsOf_eq_ok_iff.1 hof).2 name hjump)
  · intro h
    exact successorsFrom_ok fun instruction hmem name hjump =>
      (hlookup name).2 (h instruction hmem name hjump)

/-- **The successors of an instruction are the positions that control can go to from it.** -/
theorem mem_successors_iff {function : Function} (hlabels : function.labels = .ok labels)
    {i j : Nat}
    {successors : List Nat} (hi : function.code[i]? = some instruction)
    (hof : successorsOf labels function.code.length i instruction = .ok successors) :
    j ∈ successors ↔ Flow function.code i j := by
  obtain ⟨rfl, -⟩ := successorsOf_eq_ok_iff.1 hof
  rw [List.mem_append, Option.mem_toList, jumpPosition?, Option.bind_eq_some_iff]
  constructor
  · rintro (⟨name, hjump, hj⟩ | hj)
    · exact Flow.jump hi hjump ((lookup_labels hlabels).1 hj)
    · split at hj
      · next hfalls =>
        obtain ⟨rfl, hlt⟩ := mem_next.1 hj
        exact Flow.next hi hfalls hlt
      · simp at hj
  · intro h
    cases h with
    | next hi' hfalls hlt =>
        rw [hi, Option.some_inj] at hi'
        right
        rw [hi', if_pos hfalls, mem_next]
        exact ⟨rfl, hlt⟩
    | jump hi' hjump hj =>
        rw [hi, Option.some_inj] at hi'
        left
        exact ⟨_, hi' ▸ hjump, (lookup_labels hlabels).2 hj⟩

end Function

end RegisterColouring
