/-
**Well formed code.**

The grammar of L2.  An operand is proper if its registers exist, the names in it are identifiers, and
its address, if it is a memory cell, starts from a register or a variable.  Each place of an
instruction takes some of the proper operands, and code is well formed if every operand is one of
those its place takes.  A well formed function has a name that is an identifier, an arity that is not
negative and the smallest frame that holds its cells; the functions of a well formed program have
different names, and its entry is one of them.

Main definitions:

* `RegisterColouring.Item.isProper`, `RegisterColouring.Instruction.isProper` — proper operands;
* `RegisterColouring.Item.isAssignable`, `RegisterColouring.Item.isOperand`,
  `RegisterColouring.Item.isSource`, `RegisterColouring.Item.isCell`,
  `RegisterColouring.Item.isAmount` — what the places of instructions take;
* `RegisterColouring.Instruction.isWellFormed`, `RegisterColouring.Function.WellFormed`,
  `RegisterColouring.Program.WellFormed` — well formed code.

Main results:

* `RegisterColouring.Item.isAssignable_iff` and its companions — each class of operands is picked out
  from the proper ones by one test;
* `RegisterColouring.Instruction.isProper_of_isWellFormed` — **well formed instructions have proper
  operands**.
-/

import Mathlib.Data.List.Nodup
import RegisterColouring.Code.Reading
import RegisterColouring.Proofs.Operands

set_option autoImplicit false

namespace RegisterColouring

/-! ### Proper operands -/

/-- An item whose register exists, whose name is an identifier, or whose address starts from a
proper register or variable. -/
def Item.isProper : Item → Bool
  | register name => Register.isRegister name
  | var name => isIdentifier name.toList
  | memory base _ => base.isBase && isProper base
  | number _ => true
  | label name => isIdentifier name.toList
  | function name => isIdentifier name.toList

/-- An instruction with proper operands. -/
def Instruction.isProper (instruction : Instruction) : Bool :=
  instruction.operands.all Item.isProper

theorem Item.isRegular_of_isProper {item : Item} (h : item.isProper = true) :
    item.isRegular = true := by
  induction item with
  | register name => exact h
  | memory base offset ih =>
      simp only [isProper, Bool.and_eq_true] at h
      simp only [isRegular, h.1, ih h.2, Bool.and_self]
  | _ => rfl

theorem Item.isIdentifier_of_var? {item : Item} {v : String} (h : item.isProper = true)
    (hv : item.var? = some v) : isIdentifier v.toList = true := by
  induction item with
  | var name =>
      obtain rfl : name = v := Option.some_inj.1 hv
      exact h
  | memory base offset ih =>
      simp only [isProper, Bool.and_eq_true] at h
      exact ih h.2 hv
  | _ => simp [var?] at hv

theorem Instruction.isRegular_of_isProper {instruction : Instruction}
    (h : instruction.isProper = true) : instruction.isRegular = true := by
  rw [isRegular_iff]
  intro item hitem
  exact Item.isRegular_of_isProper (List.all_eq_true.1 h item hitem)

theorem Instruction.isIdentifier_of_mem_vars {instruction : Instruction} {v : String}
    (h : instruction.isProper = true) (hv : v ∈ instruction.vars) :
    isIdentifier v.toList = true := by
  obtain ⟨item, hitem, hv⟩ := List.mem_filterMap.1 hv
  exact Item.isIdentifier_of_var? (List.all_eq_true.1 h item hitem) hv

/-- An identifier does not start with a sigil. -/
theorem Name.unsigiled_of_isIdentifier {v : String} (h : isIdentifier v.toList = true) :
    Name.unsigiled v = v := by
  unfold unsigiled
  split
  · next rest hrest =>
    rw [hrest, isIdentifier, Bool.and_eq_true] at h
    exact absurd h.1 (by decide)
  · rfl

/-! ### Classes of operands -/

/-- The general purpose registers are all registers but the stack pointer. -/
theorem Register.isGeneralPurpose_iff_ne {name : String} : isGeneralPurpose name = true ↔
    isRegister name = true ∧ name ≠ stackPointer := by
  have hstack : isGeneralPurpose stackPointer = false := by decide
  rw [isRegister, Bool.or_eq_true, beq_iff_eq]
  constructor
  · intro h
    refine ⟨Or.inr h, ?_⟩
    rintro rfl
    rw [hstack] at h
    exact Bool.false_ne_true h
  · rintro ⟨h, hne⟩
    exact h.resolve_left hne

namespace Item

/-- What can be assigned to: variables and general purpose registers. -/
def isAssignable : Item → Bool
  | register name => Register.isGeneralPurpose name
  | var name => isIdentifier name.toList
  | _ => false

/-- What can be computed with: registers, the stack pointer among them, variables and numbers. -/
def isOperand : Item → Bool
  | register name => Register.isRegister name
  | var name => isIdentifier name.toList
  | number _ => true
  | _ => false

/-- What can be assigned: operands, labels and function names. -/
def isSource : Item → Bool
  | label name => isIdentifier name.toList
  | function name => isIdentifier name.toList
  | item => item.isOperand

/-- A memory cell at a multiple of eight from a register or a variable. -/
def isCell : Item → Bool
  | memory (register name) offset => Register.isRegister name && decide ((8 : Int) ∣ offset.toInt)
  | memory (var name) offset => isIdentifier name.toList && decide ((8 : Int) ∣ offset.toInt)
  | _ => false

/-- What can be shifted by: numbers, variables and one register. -/
def isAmount : Item → Bool
  | register name => name == Register.shiftAmount
  | var name => isIdentifier name.toList
  | number _ => true
  | _ => false

/-- The remainder that the reader computes tells multiples of eight. -/
theorem emod_eight_eq_zero_iff {offset : Int64} : offset % 8 = 0 ↔ (8 : Int) ∣ offset.toInt := by
  rw [← Int64.toInt_inj, Int64.toInt_mod, Int.dvd_iff_tmod_eq_zero]
  rfl

variable {item : Item}

theorem isSource_iff : item.isSource = true ↔ item.isProper = true ∧ item.isMemory = false := by
  cases item <;> simp [isSource, isOperand, isProper, isMemory]

theorem isAssignable_iff :
    item.isAssignable = true ↔ item.isSource = true ∧ item.isWritable = true := by
  cases item with
  | register name =>
      simp only [isAssignable, isSource, isOperand, isWritable, bne_iff_ne]
      exact Register.isGeneralPurpose_iff_ne
  | _ => simp [isAssignable, isSource, isOperand, isWritable]

theorem isOperand_iff : item.isOperand = true ↔ item.isSource = true ∧ item.isValue = true := by
  cases item <;> simp [isSource, isOperand, isValue]

theorem isAmount_iff :
    item.isAmount = true ↔ item.isSource = true ∧ Instruction.isShiftAmount item = true := by
  cases item with
  | register name =>
      simp only [isAmount, isSource, isOperand, Instruction.isShiftAmount, beq_iff_eq]
      refine ⟨fun h => ⟨?_, h⟩, And.right⟩
      rw [h]
      decide
  | _ => simp [isAmount, isSource, isOperand, Instruction.isShiftAmount]

theorem isCell_memory_iff {base : Item} {offset : Int64} : (memory base offset).isCell = true ↔
    (base.isSource = true ∧ base.isBase = true) ∧ offset % 8 = 0 := by
  rw [emod_eight_eq_zero_iff]
  cases base <;> simp [isCell, isSource, isOperand, isBase]

@[grind →] theorem isProper_of_isSource (h : item.isSource = true) : item.isProper = true :=
  (isSource_iff.1 h).1

@[grind →] theorem isSource_of_isAssignable (h : item.isAssignable = true) :
    item.isSource = true :=
  (isAssignable_iff.1 h).1

theorem isWritable_of_isAssignable (h : item.isAssignable = true) : item.isWritable = true :=
  (isAssignable_iff.1 h).2

@[grind →] theorem isSource_of_isOperand (h : item.isOperand = true) : item.isSource = true :=
  (isOperand_iff.1 h).1

@[grind →] theorem isSource_of_isAmount (h : item.isAmount = true) : item.isSource = true :=
  (isAmount_iff.1 h).1

@[grind →] theorem isProper_of_isCell (h : item.isCell = true) : item.isProper = true := by
  cases item with
  | memory base offset =>
      obtain ⟨⟨hsource, hbase⟩, -⟩ := isCell_memory_iff.1 h
      rw [isProper, hbase, isProper_of_isSource hsource, Bool.and_self]
  | _ => simp [isCell] at h

end Item

/-! ### Well formed code -/

/-- A callee that can stand in a call: a function name, something that can be assigned to, or a
service. -/
def Callee.isWellFormed : Callee → Bool
  | code (.function name) => isIdentifier name.toList
  | code address => address.isAssignable
  | service _ => true

/-- **A well formed instruction.** -/
def Instruction.isWellFormed : Instruction → Bool
  | assign target source =>
    target.isAssignable && (source.isSource || source.isCell) || target.isCell && source.isSource
  | stackArgument target _ => target.isAssignable
  | arith _ target source => target.isAssignable && source.isOperand
  | shift _ target amount => target.isAssignable && amount.isAmount
  | memoryArith op target source =>
    op.worksOnMemory &&
      (target.isCell && source.isOperand || target.isAssignable && source.isCell)
  | compare target _ left right => target.isAssignable && left.isOperand && right.isOperand
  | jumpIf _ left right target =>
    left.isOperand && right.isOperand && isIdentifier target.toList
  | label name => isIdentifier name.toList
  | goto target => isIdentifier target.toList
  | ret => true
  | call callee arguments => callee.isWellFormed && decide (0 ≤ arguments)
  | step target _ => target.isAssignable
  | address target base index scale =>
    target.isAssignable && base.isAssignable && index.isAssignable &&
      [1, 2, 4, 8].contains scale

/-- The factors that the reader takes. -/
theorem Instruction.isScale_iff {scale : Int64} :
    isScale scale = true ↔ [1, 2, 4, 8].contains scale = true := by
  simp [isScale, or_assoc]

theorem Callee.isSource_of_isWellFormed {address : Item}
    (h : (code address).isWellFormed = true) : address.isSource = true := by
  cases address with
  | function name => exact h
  | _ => exact Item.isSource_of_isAssignable h

/-- **Well formed instructions have proper operands.** -/
theorem Instruction.isProper_of_isWellFormed {instruction : Instruction}
    (h : instruction.isWellFormed = true) : instruction.isProper = true := by
  rw [isProper, List.all_eq_true]
  intro item hitem
  cases instruction with
  | call callee arguments =>
      rw [isWellFormed, Bool.and_eq_true] at h
      rcases List.mem_append.1 hitem with hcallee | hnumber
      · cases callee with
        | service s => simp [Callee.operands] at hcallee
        | code address =>
            obtain rfl := List.mem_singleton.1 hcallee
            exact Item.isProper_of_isSource (Callee.isSource_of_isWellFormed h.1)
      · obtain rfl := List.mem_singleton.1 hnumber
        rfl
  | ret => simp [operands] at hitem
  | _ =>
      -- Every other operand belongs to one of the classes, or is a number or a label.
      simp only [isWellFormed, Bool.and_eq_true, Bool.or_eq_true] at h
      simp only [operands, List.mem_cons, List.not_mem_nil, or_false] at hitem
      grind [Item.isProper]

/-- **A well formed function.** -/
structure Function.WellFormed (function : Function) : Prop where
  name : isIdentifier function.name.toList = true
  arity : 0 ≤ function.arity
  locals : function.locals = inferLocals function.code
  code : ∀ instruction ∈ function.code, instruction.isWellFormed = true

theorem Function.wellFormed_iff {function : Function} : function.WellFormed ↔
    isIdentifier function.name.toList = true ∧ 0 ≤ function.arity ∧
      function.locals = inferLocals function.code ∧
      ∀ instruction ∈ function.code, instruction.isWellFormed = true :=
  ⟨fun h => ⟨h.name, h.arity, h.locals, h.code⟩, fun h => ⟨h.1, h.2.1, h.2.2.1, h.2.2.2⟩⟩

instance (function : Function) : Decidable function.WellFormed :=
  decidable_of_iff' _ Function.wellFormed_iff

/-- **A well formed program.** -/
structure Program.WellFormed (program : Program) : Prop where
  entry : isIdentifier program.entry.toList = true
  functions : ∀ function ∈ program.functions, function.WellFormed
  distinct : (program.functions.map Function.name).Nodup
  entry_mem : program.entry ∈ program.functions.map Function.name

theorem Program.wellFormed_iff {program : Program} : program.WellFormed ↔
    isIdentifier program.entry.toList = true ∧
      (∀ function ∈ program.functions, function.WellFormed) ∧
      (program.functions.map Function.name).Nodup ∧
      program.entry ∈ program.functions.map Function.name :=
  ⟨fun h => ⟨h.entry, h.functions, h.distinct, h.entry_mem⟩,
    fun h => ⟨h.1, h.2.1, h.2.2.1, h.2.2.2⟩⟩

instance (program : Program) : Decidable program.WellFormed :=
  decidable_of_iff' _ Program.wellFormed_iff

end RegisterColouring
