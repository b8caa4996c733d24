/-
**What instructions access.**

An operand depends on one register or variable at most, its holder: the operand itself, or what its
address is built from.  The holders that an instruction reads and writes are those of its operands,
and the registers of the calling convention; the effect of the instruction lists their names.
Holders say more than names do: no register that exists has the name of a variable, but an
instruction may have registers that do not exist.

Main definitions:

* `RegisterColouring.Holder`, `RegisterColouring.Item.holder?` — registers and variables, and the one
  that an operand depends on;
* `RegisterColouring.Access`, `RegisterColouring.Instruction.access` — **the holders that an
  instruction reads and writes**;
* `RegisterColouring.Item.isAddressed`, `RegisterColouring.Instruction.isAddressed` — proper
  addresses.

Main results:

* `RegisterColouring.Instruction.effect_eq_access` — effects are the names of what is accessed;
* `RegisterColouring.Instruction.mem_access_iff` — **where holders come from**;
* `RegisterColouring.Instruction.access_rename` — **renaming commutes with access**.
-/

import RegisterColouring.Code.Effect
import RegisterColouring.Code.Renaming

set_option autoImplicit false

namespace RegisterColouring

/-! ### Holders -/

/-- What holds a value: a register or a variable. -/
inductive Holder where
  | register (name : String)
  | var (name : String)
  deriving DecidableEq, Repr

namespace Holder

/-- The name under which the value of a holder is tracked. -/
def name : Holder → Name
  | register r => r
  | var v => Name.ofVariable v

/-- A holder with variables renamed. -/
def rename (image : String → String) : Holder → Holder
  | register r => register r
  | var v => var (image v)

theorem name_comp_register : name ∘ register = id := rfl

theorem rename_comp_register (image : String → String) : rename image ∘ register = register := rfl

end Holder

namespace Item

/-- The holder that an operand depends on, if it is tracked. -/
def holder? : Item → Option Holder
  | register name => if name = Register.stackPointer then none else some (.register name)
  | var name => some (.var name)
  | memory base _ => holder? base
  | _ => none

/-- The holders of an operand, as a list of at most one. -/
def holders (item : Item) : List Holder := item.holder?.toList

/-- The register that an item is, or that its address starts from, however deep. -/
def register? : Item → Option String
  | register name => some name
  | memory base _ => register? base
  | _ => none

/-- An item whose address, if it is a memory cell, starts from a register or a variable. -/
def isAddressed : Item → Bool
  | memory base _ => base.isBase
  | _ => true

variable {item : Item} {image : String → String}

theorem name?_eq_holder? : item.name? = item.holder?.map Holder.name := by
  induction item with
  | register name =>
      simp only [name?, holder?]
      split <;> rfl
  | memory base offset ih => exact ih
  | _ => rfl

theorem names_eq_holders : item.names = item.holders.map Holder.name := by
  rw [names, holders, name?_eq_holder?, Option.toList_map]

/-- The variables that operands depend on are the variables in them. -/
theorem holder?_eq_var_iff {v : String} :
    item.holder? = some (.var v) ↔ item.var? = some v := by
  induction item with
  | register name =>
      simp only [holder?, var?]
      split <;> simp
  | memory base offset ih => exact ih
  | _ => simp [holder?, var?]

/-- The registers that operands depend on are the tracked ones in them. -/
theorem holder?_eq_register_iff {r : String} :
    item.holder? = some (.register r) ↔ item.register? = some r ∧ r ≠ Register.stackPointer := by
  induction item with
  | register name =>
      simp only [holder?, register?]
      grind
  | memory base offset ih => exact ih
  | _ => simp [holder?, register?]

/-- An item depends on a register other than the stack pointer, or on its variable. -/
theorem register_or_var_of_name? {name : Name} (h : item.name? = some name) :
    (item.register? = some name ∧ name ≠ Register.stackPointer) ∨
      ∃ v, item.var? = some v ∧ name = Name.ofVariable v := by
  rw [name?_eq_holder?, Option.map_eq_some_iff] at h
  obtain ⟨holder, hholder, rfl⟩ := h
  cases holder with
  | register r => exact Or.inl (holder?_eq_register_iff.1 hholder)
  | var v => exact Or.inr ⟨v, holder?_eq_var_iff.1 hholder, rfl⟩

@[simp] theorem isMemory_rename : (item.rename image).isMemory = item.isMemory := by
  cases item with
  | memory base offset => cases base <;> rfl
  | _ => rfl

theorem holder?_rename (h : item.isAddressed = true) :
    (item.rename image).holder? = item.holder?.map (Holder.rename image) := by
  have hregister : ∀ r, (register r).holder? = (register r).holder?.map (Holder.rename image) := by
    intro r
    simp only [holder?]
    split <;> rfl
  cases item with
  | register r => exact hregister r
  | memory base offset =>
      cases base with
      | register r => exact hregister r
      | var v => rfl
      | _ => simp [isAddressed, isBase] at h
  | _ => rfl

theorem holders_rename (h : item.isAddressed = true) :
    (item.rename image).holders = item.holders.map (Holder.rename image) := by
  rw [holders, holders, holder?_rename h, Option.toList_map]

end Item

/-! ### Accesses -/

/-- The holders that are read, and those that are written, each in order and with repetitions. -/
structure Access where
  reads : List Holder
  writes : List Holder
  deriving DecidableEq, Repr

namespace Access

/-- The names of what is accessed. -/
def effect (access : Access) : Effect :=
  ⟨access.reads.map Holder.name, access.writes.map Holder.name⟩

/-- What is accessed, with variables renamed. -/
def rename (image : String → String) (access : Access) : Access :=
  ⟨access.reads.map (Holder.rename image), access.writes.map (Holder.rename image)⟩

end Access

namespace Instruction

/-- **What an instruction accesses.** -/
def access : Instruction → Access
  | assign target source =>
    if target.isMemory then ⟨source.holders ++ target.holders, []⟩
    else ⟨source.holders, target.holders⟩
  | stackArgument target _ => ⟨[], target.holders⟩
  | arith _ target source => ⟨source.holders ++ target.holders, target.holders⟩
  | shift _ target amount => ⟨amount.holders ++ target.holders, target.holders⟩
  | memoryArith _ target source =>
    ⟨target.holders ++ source.holders, if target.isMemory then [] else target.holders⟩
  | compare target _ left right => ⟨left.holders ++ right.holders, target.holders⟩
  | jumpIf _ left right _ => ⟨left.holders ++ right.holders, []⟩
  | label _ => ⟨[], []⟩
  | goto _ => ⟨[], []⟩
  | ret => ⟨(Register.result :: Register.calleeSaved).map .register, []⟩
  | call callee arguments =>
    ⟨(Register.arguments arguments).map .register ++ callee.operands.flatMap Item.holders,
      Register.callerSaved.map .register⟩
  | step target _ => ⟨target.holders, target.holders⟩
  | address target base index _ => ⟨base.holders ++ index.holders, target.holders⟩

/-- The registers that an instruction accesses by the calling convention. -/
def convention : Instruction → List String
  | ret => Register.result :: Register.calleeSaved
  | call _ arguments => Register.arguments arguments ++ Register.callerSaved
  | _ => []

/-- An instruction whose memory cells have proper addresses. -/
def isAddressed (instruction : Instruction) : Bool :=
  instruction.operands.all Item.isAddressed

variable {instruction : Instruction} {image : String → String} {holder : Holder}


/-- **Effects are the names of what is accessed.** -/
theorem effect_eq_access (instruction : Instruction) :
    instruction.effect = instruction.access.effect := by
  cases instruction with
  | ret => simp [effect, access, Access.effect, Holder.name_comp_register, Holder.name]
  | call callee arguments =>
      cases callee <;>
        simp [effect, access, Access.effect, Holder.name_comp_register, Callee.operands,
          Item.names_eq_holders]
  | assign target source =>
      simp only [effect, access]
      split <;> simp [Access.effect, Item.names_eq_holders]
  | memoryArith op target source =>
      simp only [effect, access]
      split <;> simp [Access.effect, Item.names_eq_holders]
  | _ => simp [effect, access, Access.effect, Item.names_eq_holders]

/-- **Where holders come from**: the calling convention and the operands. -/
theorem mem_access_iff :
    holder ∈ instruction.access.reads ∨ holder ∈ instruction.access.writes ↔
      (∃ r ∈ instruction.convention, holder = .register r) ∨
        ∃ item ∈ instruction.operands, item.holder? = some holder := by
  cases instruction with
  | call callee arguments =>
      cases callee <;>
        simp only [access, convention, operands, Callee.operands, Item.holders, List.mem_append,
          List.mem_map, List.flatMap_cons, List.flatMap_nil] <;>
        grind [Item.holder?]
  | ret => simp [access, convention, operands, eq_comm]
  | _ =>
      simp only [access, convention, operands, Item.holders]
      grind [Item.holder?]

/-- **Renaming commutes with access.** -/
theorem access_rename (h : instruction.isAddressed = true) :
    (instruction.rename image).access = instruction.access.rename image := by
  have hholders : ∀ item ∈ instruction.operands,
      (item.rename image).holders = item.holders.map (Holder.rename image) :=
    fun item hitem => Item.holders_rename (List.all_eq_true.1 h item hitem)
  cases instruction with
  | call callee arguments =>
      cases callee <;>
        simp_all [rename, access, Access.rename, operands, Callee.rename, Callee.operands,
          Holder.rename_comp_register]
  | assign target source =>
      simp only [rename, access, Item.isMemory_rename]
      split <;> simp_all [Access.rename, operands]
  | memoryArith op target source =>
      simp only [rename, access, Item.isMemory_rename]
      split <;> simp_all [Access.rename, operands]
  | ret => simp [rename, access, Access.rename, Holder.rename_comp_register, Holder.rename]
  | _ => simp_all [rename, access, Access.rename, operands]

end Instruction

end RegisterColouring
