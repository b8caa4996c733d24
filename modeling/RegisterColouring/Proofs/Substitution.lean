/-
**Substitution.**

An instruction is a kind with its operands.  Renaming its variables keeps the kind, and with it the
operators, the callee and whether control goes on; it replaces the variables in the operands, those
that memory cells are addressed by included, and keeps the registers, labels and numbers there.  What
is read and what is written follow: each holder that the instruction accesses is replaced where it
stands.  The variables that are accessed are those of the operands.

Names say less than holders do.  Nothing keeps an instruction from having a register with the name of
a variable, although no such register exists and none is ever read from a text.  The names that are
read and written follow the renaming exactly as far as there is no such register.

Main definitions:

* `RegisterColouring.Item.replaceVars` — an operand with its variables replaced, at any depth;
* `RegisterColouring.Kind`, `RegisterColouring.Instruction.kind` — an instruction without its
  operands;
* `RegisterColouring.Kind.build?` — **an instruction from its kind and operands**.

Main results:

* `RegisterColouring.Instruction.build?_operands` — kind and operands determine the instruction;
* `RegisterColouring.Instruction.effect_rename_iff_registers` — when the names of what is read and
  written are renamed;
* `RegisterColouring.Instruction.rename_commutes` — **renaming commutes with all that is read off an
  instruction**.
-/

import RegisterColouring.Proofs.Operands

set_option autoImplicit false

namespace RegisterColouring

/-! ### Operands -/

namespace Item

/-- An operand with every variable in it replaced. -/
def replaceVars (image : String → String) : Item → Item
  | var name => var (image name)
  | memory base offset => memory (replaceVars image base) offset
  | item => item

variable {item : Item} {image : String → String}

theorem rename_eq_replaceVars (h : item.isAddressed = true) :
    item.rename image = item.replaceVars image := by
  cases item with
  | memory base offset =>
      cases base with
      | register r => rfl
      | var v => rfl
      | _ => simp [isAddressed, isBase] at h
  | _ => rfl

end Item

/-! ### Kinds -/

/-- An instruction without its operands. -/
inductive Kind where
  | assign
  | stackArgument
  | arith (op : ArithOp)
  | shift (op : ShiftOp)
  | memoryArith (op : ArithOp)
  | compare (op : Comparison)
  | jumpIf (op : Comparison)
  | label
  | goto
  | ret
  | callCode
  | callService (service : Service)
  | step (direction : Step)
  | address
  deriving DecidableEq, Repr

namespace Kind

/-- **An instruction from its kind and operands**, if there is one. -/
def build? : Kind → List Item → Option Instruction
  | assign, [target, source] => some (.assign target source)
  | stackArgument, [target, .number offset] => some (.stackArgument target offset)
  | arith op, [target, source] => some (.arith op target source)
  | shift op, [target, amount] => some (.shift op target amount)
  | memoryArith op, [target, source] => some (.memoryArith op target source)
  | compare op, [target, left, right] => some (.compare target op left right)
  | jumpIf op, [left, right, .label target] => some (.jumpIf op left right target)
  | label, [.label name] => some (.label name)
  | goto, [.label target] => some (.goto target)
  | ret, [] => some .ret
  | callCode, [code, .number arguments] => some (.call (.code code) arguments)
  | callService service, [.number arguments] => some (.call (.service service) arguments)
  | step direction, [target] => some (.step target direction)
  | address, [target, base, index, .number scale] => some (.address target base index scale)
  | _, _ => none

/-- Control never goes on from an instruction of this kind. -/
def isTerminal : Kind → Bool
  | ret => true
  | callService service => !service.returns
  | _ => false

end Kind

namespace Instruction

/-- The kind of an instruction. -/
def kind : Instruction → Kind
  | assign _ _ => .assign
  | stackArgument _ _ => .stackArgument
  | arith op _ _ => .arith op
  | shift op _ _ => .shift op
  | memoryArith op _ _ => .memoryArith op
  | compare _ op _ _ => .compare op
  | jumpIf op _ _ _ => .jumpIf op
  | label _ => .label
  | goto _ => .goto
  | ret => .ret
  | call (.code _) _ => .callCode
  | call (.service service) _ => .callService service
  | step _ direction => .step direction
  | address _ _ _ _ => .address

/-- The registers in the operands of an instruction. -/
def registers (instruction : Instruction) : List String :=
  instruction.operands.filterMap Item.register?

variable {instruction other : Instruction} {image : String → String} {v : String}

/-- Kind and operands determine the instruction. -/
theorem build?_operands (instruction : Instruction) :
    instruction.kind.build? instruction.operands = some instruction := by
  cases instruction with
  | call callee arguments => cases callee <;> rfl
  | _ => rfl

theorem eq_of_kind_of_operands (hkind : other.kind = instruction.kind)
    (hoperands : other.operands = instruction.operands) : other = instruction := by
  have h := build?_operands other
  rw [hkind, hoperands, build?_operands] at h
  exact (Option.some.inj h).symm

theorem isTerminal_eq_kind (instruction : Instruction) :
    instruction.isTerminal = instruction.kind.isTerminal := by
  cases instruction with
  | call callee arguments => cases callee <;> rfl
  | _ => rfl

theorem kind_rename (instruction : Instruction) (image : String → String) :
    (instruction.rename image).kind = instruction.kind := by
  cases instruction with
  | call callee arguments => cases callee <;> rfl
  | _ => rfl

theorem operands_rename_of_isAddressed (h : instruction.isAddressed = true) :
    (instruction.rename image).operands = instruction.operands.map (Item.replaceVars image) := by
  rw [operands_rename]
  exact List.map_congr_left fun item hitem =>
    Item.rename_eq_replaceVars (List.all_eq_true.1 h item hitem)

/-- The renamed instruction is the one of the same kind with the variables replaced. -/
theorem eq_rename_iff (h : instruction.isAddressed = true) :
    other = instruction.rename image ↔
      other.kind = instruction.kind ∧
        other.operands = instruction.operands.map (Item.replaceVars image) := by
  constructor
  · rintro rfl
    exact ⟨kind_rename instruction image, operands_rename_of_isAddressed h⟩
  · rintro ⟨hkind, hoperands⟩
    apply eq_of_kind_of_operands
    · rw [hkind, kind_rename]
    · rw [hoperands, operands_rename_of_isAddressed h]

/-! ### Variables -/

/-- The variables that are accessed are those of the operands. -/
theorem mem_vars_iff_access :
    v ∈ instruction.vars ↔
      .var v ∈ instruction.access.reads ∨ .var v ∈ instruction.access.writes := by
  simp [mem_access_iff, vars, Item.holder?_eq_var_iff]

/-- The registers that are accessed are those of the calling convention and those of the operands,
the stack pointer apart. -/
theorem register_mem_access_iff {r : String} :
    .register r ∈ instruction.access.reads ∨ .register r ∈ instruction.access.writes ↔
      r ∈ instruction.convention ∨ (r ∈ instruction.registers ∧ r ≠ Register.stackPointer) := by
  rw [mem_access_iff]
  constructor
  · rintro (⟨r', hr, heq⟩ | ⟨item, hitem, hholder⟩)
    · obtain rfl := Holder.register.inj heq
      exact Or.inl hr
    · obtain ⟨hr, hne⟩ := Item.holder?_eq_register_iff.1 hholder
      exact Or.inr ⟨List.mem_filterMap.2 ⟨item, hitem, hr⟩, hne⟩
  · rintro (hr | ⟨hr, hne⟩)
    · exact Or.inl ⟨r, hr, rfl⟩
    · obtain ⟨item, hitem, hr⟩ := List.mem_filterMap.1 hr
      exact Or.inr ⟨item, hitem, Item.holder?_eq_register_iff.2 ⟨hr, hne⟩⟩

/-- A register with the name of a variable is accessed exactly if it is one of the operands'. -/
theorem ofVariable_mem_access_iff :
    .register (Name.ofVariable v) ∈ instruction.access.reads ∨
        .register (Name.ofVariable v) ∈ instruction.access.writes ↔
      Name.ofVariable v ∈ instruction.registers := by
  have hpointer : Name.ofVariable v ≠ Register.stackPointer := by
    intro h
    have hhead := congrArg (fun name => name.toList.head?) h
    simp [Register.stackPointer] at hhead
  rw [register_mem_access_iff, and_iff_left hpointer]
  exact or_iff_right fun h => Name.ofVariable_not_mem_generalPurpose v (convention_subset h)

/-- **When the names of a renamed instruction are the renamed names**: if no register of the operands
has the name of a variable that is renamed. -/
theorem effect_rename_iff_registers (h : instruction.isAddressed = true) :
    (instruction.rename image).effect =
        ⟨instruction.gen.map (Name.rename image), instruction.kill.map (Name.rename image)⟩ ↔
      ∀ v, Name.ofVariable v ∈ instruction.registers → image v = v := by
  simp only [effect_rename_iff h, Name.rename_eq_self_iff, ← ofVariable_mem_access_iff]
  constructor
  · intro hnames v hv
    exact hnames _ hv v rfl
  · rintro hnames _ hr v rfl
    exact hnames v hr

/-- **Where the names of variables that are read or written come from**: from the variables of the
operands, and from registers there that have such a name. -/
theorem ofVariable_mem_gen_or_kill_iff :
    Name.ofVariable v ∈ instruction.gen ∨ Name.ofVariable v ∈ instruction.kill ↔
      v ∈ instruction.vars ∨ Name.ofVariable v ∈ instruction.registers := by
  rw [mem_gen_or_kill_iff_access, mem_vars_iff_access, ← ofVariable_mem_access_iff]
  constructor
  · rintro ⟨holder, hmem, hname⟩
    cases holder with
    | register r =>
        obtain rfl : r = Name.ofVariable v := hname
        exact Or.inr hmem
    | var w =>
        obtain rfl := Name.ofVariable_inj.1 hname
        exact Or.inl hmem
  · rintro (hmem | hmem)
    · exact ⟨.var v, hmem, rfl⟩
    · exact ⟨.register (Name.ofVariable v), hmem, rfl⟩

/-- **Renaming commutes with all that is read off an instruction.**  The renamed instruction is the
one of the same kind whose operands have the variables replaced.  Of what is read and written, each
variable is replaced where it stands, and nothing else.  The variables read or written are those of
the operands.  So it is for the names too, except that a register may have the name of a variable:
such a name stays when the variable is renamed, and is read or written although the variable is not
there. -/
theorem rename_commutes (instruction : Instruction) (image : String → String)
    (haddressed : instruction.isAddressed = true) :
    (∀ other, other = instruction.rename image ↔
      other.kind = instruction.kind ∧
        other.operands = instruction.operands.map (Item.replaceVars image)) ∧
    (instruction.rename image).isTerminal = instruction.isTerminal ∧
    (instruction.effect = instruction.access.effect ∧
      (instruction.rename image).effect = (instruction.access.rename image).effect) ∧
    ((instruction.rename image).effect =
        ⟨instruction.gen.map (Name.rename image), instruction.kill.map (Name.rename image)⟩ ↔
      ∀ v, Name.ofVariable v ∈ instruction.registers → image v = v) ∧
    (∀ v, v ∈ instruction.vars ↔
      .var v ∈ instruction.access.reads ∨ .var v ∈ instruction.access.writes) ∧
    (∀ v, Name.ofVariable v ∈ instruction.gen ∨ Name.ofVariable v ∈ instruction.kill ↔
      v ∈ instruction.vars ∨ Name.ofVariable v ∈ instruction.registers) := by
  refine ⟨fun other => eq_rename_iff haddressed, ?_, ⟨effect_eq_access instruction, ?_⟩,
    effect_rename_iff_registers haddressed, fun v => mem_vars_iff_access,
    fun v => ofVariable_mem_gen_or_kill_iff⟩
  · rw [isTerminal_eq_kind, isTerminal_eq_kind, kind_rename]
  · rw [effect_eq_access, access_rename haddressed]

/-- Adding into a memory cell, with its base and the other operand renamed to one variable. -/
theorem memoryArith_rename_commutes :
    let instruction := memoryArith .add (.memory (.var "base") 8) (.var "x")
    let image := fun v => if v = "base" ∨ v = "x" then "t" else v
    instruction.isAddressed = true ∧
      instruction.rename image = memoryArith .add (.memory (.var "t") 8) (.var "t") ∧
      (instruction.rename image).effect = ⟨["%t", "%t"], []⟩ ∧
      ∀ v, Name.ofVariable v ∈ instruction.gen ∨ Name.ofVariable v ∈ instruction.kill →
        v ∈ ["base", "x"] := by
  intro instruction image
  have hregisters : ∀ v, Name.ofVariable v ∉ instruction.registers := by
    intro v
    simp [instruction, registers, operands, Item.register?]
  obtain ⟨hunique, -, -, hnames, -, hvars⟩ := rename_commutes instruction image rfl
  refine ⟨rfl, ?_, ?_, fun v hv => ((hvars v).1 hv).resolve_right (hregisters v)⟩
  · exact ((hunique (memoryArith .add (.memory (.var "t") 8) (.var "t"))).2
      ⟨rfl, by decide⟩).symm
  · rw [hnames.2 fun v hv => absurd hv (hregisters v)]
    decide

/-- An assignment to a register with the name of a variable.  The name is written although the
variable is not there, and it stays when the variable is renamed. -/
theorem sigiled_register_stays :
    let instruction := assign (.register "%x") (.number 1)
    let image := fun v => if v = "x" then "y" else v
    instruction.isAddressed = true ∧
      (instruction.rename image).effect ≠
        ⟨instruction.gen.map (Name.rename image), instruction.kill.map (Name.rename image)⟩ ∧
      Name.ofVariable "x" ∈ instruction.kill ∧ "x" ∉ instruction.vars := by
  decide

end Instruction

end RegisterColouring
