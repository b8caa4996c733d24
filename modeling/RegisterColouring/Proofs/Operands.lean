/-
**Operands, effects and renaming.**

What an instruction reads and writes is read off its operands: every tracked name is a general
purpose register or comes from an operand.  In a regular instruction, one whose registers exist and
whose addresses start from a register or a variable, the tracked names are general purpose registers
and the instruction's own variables, and renaming the variables renames what is read and written.

Main definitions:

* `RegisterColouring.Item.isRegular`, `RegisterColouring.Instruction.isRegular` — existing registers
  and proper addresses;
* `RegisterColouring.Name.rename` — the name of a renamed variable.

Main results:

* `RegisterColouring.Instruction.tracked_of_isRegular` — what a regular instruction reads and
  writes;
* `RegisterColouring.Instruction.effect_rename_iff` — when renaming commutes with effects;
* `RegisterColouring.Instruction.gen_rename`, `RegisterColouring.Instruction.kill_rename` — it does
  for regular instructions;
* `RegisterColouring.Instruction.gen_pair` — an instruction reads at most two names, registers of
  the calling convention apart.
-/

import RegisterColouring.Proofs.Accesses
import RegisterColouring.Proofs.Names

set_option autoImplicit false

namespace RegisterColouring

/-! ### Regular operands -/

/-- An item whose register, if it has one, exists, and whose address, if it is a memory cell, starts
from a register or a variable. -/
def Item.isRegular : Item → Bool
  | register name => Register.isRegister name
  | memory base _ => base.isBase && isRegular base
  | _ => true

/-- An instruction with regular operands. -/
def Instruction.isRegular (instruction : Instruction) : Bool :=
  instruction.operands.all Item.isRegular

namespace Item

variable {item : Item} {name : Name} {v : String}

theorem isAddressed_of_isRegular (h : item.isRegular = true) : item.isAddressed = true := by
  cases item with
  | memory base offset =>
      simp only [isRegular, Bool.and_eq_true] at h
      exact h.1
  | _ => rfl

@[simp] theorem mem_names : name ∈ item.names ↔ item.name? = some name := by
  simp [names]

/-- An item depends on its variable. -/
theorem name?_of_var? (h : item.var? = some v) : item.name? = some (Name.ofVariable v) := by
  rw [name?_eq_holder?, holder?_eq_var_iff.2 h]
  rfl

theorem isRegister_of_isRegular {r : String} (h : item.isRegular = true)
    (hr : item.register? = some r) : Register.isRegister r = true := by
  induction item with
  | register name =>
      obtain rfl := Option.some_inj.1 hr
      exact h
  | memory base offset ih =>
      simp only [isRegular, Bool.and_eq_true] at h
      exact ih h.2 hr
  | _ => simp [register?] at hr

/-- The register that a regular item depends on is a general purpose one. -/
theorem generalPurpose_of_holder? {r : String} (hregular : item.isRegular = true)
    (h : item.holder? = some (.register r)) : r ∈ Register.generalPurpose := by
  obtain ⟨hr, hne⟩ := holder?_eq_register_iff.1 h
  simpa [Register.isRegister, hne] using isRegister_of_isRegular hregular hr

/-- A regular item depends on a general purpose register or on its variable. -/
theorem tracked_of_isRegular (hregular : item.isRegular = true) (h : item.name? = some name) :
    name ∈ Register.generalPurpose ∨ ∃ v, item.var? = some v ∧ name = Name.ofVariable v := by
  rcases register_or_var_of_name? h with ⟨hr, hne⟩ | hvar
  · left
    simpa [Register.isRegister, hne] using isRegister_of_isRegular hregular hr
  · exact Or.inr hvar

end Item

/-! ### Effects -/

namespace Instruction

variable {instruction : Instruction} {name : Name} {v : String}

/-- The registers of the calling convention are general purpose ones. -/
theorem convention_subset {r : String} (h : r ∈ instruction.convention) :
    r ∈ Register.generalPurpose := by
  cases instruction with
  | ret =>
      rcases List.mem_cons.1 h with rfl | h
      · decide
      · exact Register.calleeSaved_subset h
  | call callee arguments =>
      rcases List.mem_append.1 h with h | h
      · exact Register.arguments_subset h
      · exact Register.callerSaved_subset h
  | _ => simp [convention] at h

/-- The names that are read or written are those of the holders that are accessed. -/
theorem mem_gen_or_kill_iff_access :
    name ∈ instruction.gen ∨ name ∈ instruction.kill ↔
      ∃ holder, (holder ∈ instruction.access.reads ∨ holder ∈ instruction.access.writes) ∧
        holder.name = name := by
  simp [gen, kill, effect_eq_access, Access.effect, or_and_right, exists_or]

theorem mem_gen_or_kill_iff :
    name ∈ instruction.gen ∨ name ∈ instruction.kill ↔
      name ∈ instruction.convention ∨ ∃ item ∈ instruction.operands, item.name? = some name := by
  simp only [mem_gen_or_kill_iff_access, mem_access_iff, Item.name?_eq_holder?,
    Option.map_eq_some_iff]
  constructor
  · rintro ⟨holder, ⟨r, hr, rfl⟩ | ⟨item, hitem, hholder⟩, rfl⟩
    · exact Or.inl hr
    · exact Or.inr ⟨item, hitem, holder, hholder, rfl⟩
  · rintro (hname | ⟨item, hitem, holder, hholder, rfl⟩)
    · exact ⟨.register name, Or.inl ⟨name, hname, rfl⟩, rfl⟩
    · exact ⟨holder, Or.inr ⟨item, hitem, hholder⟩, rfl⟩

/-- A name that is read or written is a general purpose register or comes from an operand. -/
theorem operand_of_mem_gen_or_kill (h : name ∈ instruction.gen ∨ name ∈ instruction.kill) :
    name ∈ Register.generalPurpose ∨ ∃ item ∈ instruction.operands, item.name? = some name :=
  (mem_gen_or_kill_iff.1 h).imp_left convention_subset

/-- **Every variable of an instruction is read or written.** -/
theorem mem_gen_or_kill_of_mem_vars (hv : v ∈ instruction.vars) :
    Name.ofVariable v ∈ instruction.gen ∨ Name.ofVariable v ∈ instruction.kill := by
  obtain ⟨item, hitem, hvar⟩ := List.mem_filterMap.1 hv
  exact mem_gen_or_kill_iff.2 (Or.inr ⟨item, hitem, Item.name?_of_var? hvar⟩)

theorem isRegular_iff :
    instruction.isRegular = true ↔ ∀ item ∈ instruction.operands, item.isRegular = true := by
  simp [isRegular]

theorem isAddressed_of_isRegular (hregular : instruction.isRegular = true) :
    instruction.isAddressed = true :=
  List.all_eq_true.2 fun item hitem =>
    Item.isAddressed_of_isRegular (isRegular_iff.1 hregular item hitem)

/-- **What a regular instruction reads and writes** are general purpose registers and its own
variables. -/
theorem tracked_of_isRegular (hregular : instruction.isRegular = true)
    (h : name ∈ instruction.gen ∨ name ∈ instruction.kill) :
    name ∈ Register.generalPurpose ∨ ∃ v ∈ instruction.vars, name = Name.ofVariable v := by
  rcases operand_of_mem_gen_or_kill h with h | ⟨item, hitem, hname⟩
  · exact Or.inl h
  · rcases Item.tracked_of_isRegular (isRegular_iff.1 hregular item hitem) hname with
      h | ⟨v, hv, rfl⟩
    · exact Or.inl h
    · exact Or.inr ⟨v, List.mem_filterMap.2 ⟨item, hitem, hv⟩, rfl⟩

/-- In a regular instruction a variable that is read or written is one of its variables. -/
theorem mem_vars_of_mem_gen_or_kill (hregular : instruction.isRegular = true)
    (h : Name.ofVariable v ∈ instruction.gen ∨ Name.ofVariable v ∈ instruction.kill) :
    v ∈ instruction.vars := by
  rcases tracked_of_isRegular hregular h with h | ⟨w, hw, hvw⟩
  · exact absurd h (Name.ofVariable_not_mem_generalPurpose v)
  · rwa [Name.ofVariable_inj.1 hvw]

/-- At most two names are read, registers of the calling convention apart. -/
theorem gen_pair (instruction : Instruction) :
    ∃ a b, ∀ name ∈ instruction.gen, name ∈ Register.generalPurpose ∨ name = a ∨ name = b := by
  have hitems : ∀ (left right : Item), ∃ a b, ∀ name ∈ left.names ++ right.names,
      name ∈ Register.generalPurpose ∨ name = a ∨ name = b := by
    intro left right
    refine ⟨left.name?.getD "", right.name?.getD "", ?_⟩
    intro name hname
    right
    rcases List.mem_append.1 hname with h | h
    · simp [Item.mem_names.1 h]
    · simp [Item.mem_names.1 h]
  cases instruction with
  | ret =>
      refine ⟨"", "", ?_⟩
      intro name h
      rcases operand_of_mem_gen_or_kill (Or.inl h) with h | ⟨item, hitem, -⟩
      · exact Or.inl h
      · simp [operands] at hitem
  | call callee arguments =>
      cases callee with
      | service service =>
          refine ⟨"", "", ?_⟩
          intro name h
          simp only [gen, effect, Callee.operands, List.flatMap_nil, List.append_nil] at h
          exact Or.inl (Register.arguments_subset h)
      | code address =>
          obtain ⟨a, b, hab⟩ := hitems address address
          refine ⟨a, b, ?_⟩
          intro name h
          simp only [gen, effect, Callee.operands, List.flatMap_cons, List.flatMap_nil,
            List.append_nil, List.mem_append] at h
          rcases h with h | h
          · exact Or.inl (Register.arguments_subset h)
          · exact hab name (List.mem_append_left _ h)
  | assign target source =>
      obtain ⟨a, b, hab⟩ := hitems source target
      refine ⟨a, b, ?_⟩
      intro name hname
      simp only [gen, effect] at hname
      split at hname
      · exact hab name hname
      · exact hab name (List.mem_append_left _ hname)
  | arith _ target source => exact hitems source target
  | shift _ target amount => exact hitems amount target
  | memoryArith _ target source => exact hitems target source
  | compare _ _ left right => exact hitems left right
  | jumpIf _ left right _ => exact hitems left right
  | address _ base index _ => exact hitems base index
  | step target _ =>
      obtain ⟨a, b, hab⟩ := hitems target target
      exact ⟨a, b, fun name h => hab name (List.mem_append_left _ h)⟩
  | _ => exact ⟨"", "", fun name h => by simp [gen, effect] at h⟩

/-- Beside a variable that an instruction reads it reads no two others. -/
theorem eq_of_mem_gen {t u w : Name} (ht : t ∈ instruction.gen) (hu : u ∈ instruction.gen)
    (hw : w ∈ instruction.gen) (ht' : t ∉ Register.generalPurpose)
    (hu' : u ∉ Register.generalPurpose) (hw' : w ∉ Register.generalPurpose) (htu : t ≠ u)
    (htw : t ≠ w) : u = w := by
  obtain ⟨a, b, hpair⟩ := instruction.gen_pair
  have hta := (hpair t ht).resolve_left ht'
  have hua := (hpair u hu).resolve_left hu'
  have hwa := (hpair w hw).resolve_left hw'
  grind

end Instruction

/-! ### Renaming -/

/-- The name of a renamed variable; registers keep their names. -/
def Name.rename (image : String → String) (name : Name) : Name :=
  match name.toList with
  | '%' :: v => Name.ofVariable (image (String.ofList v))
  | _ => name

section Renaming

variable {image : String → String} {item : Item} {instruction : Instruction}

@[simp] theorem Name.rename_ofVariable (v : String) :
    Name.rename image (Name.ofVariable v) = Name.ofVariable (image v) := by
  simp [Name.rename]

/-- Only the names of variables change. -/
theorem Name.rename_of_ne {name : Name} (h : ∀ v, name ≠ Name.ofVariable v) :
    Name.rename image name = name := by
  unfold Name.rename
  split
  · next v hv =>
    refine absurd ?_ (h (String.ofList v))
    apply String.toList_inj.1
    simp [hv]
  · rfl

/-- A name stays if it is not the name of a variable that is renamed. -/
theorem Name.rename_eq_self_iff {name : Name} :
    Name.rename image name = name ↔ ∀ v, name = Name.ofVariable v → image v = v := by
  constructor
  · rintro h v rfl
    rwa [Name.rename_ofVariable, Name.ofVariable_inj] at h
  · intro h
    by_cases hvariable : ∃ v, name = Name.ofVariable v
    · obtain ⟨v, rfl⟩ := hvariable
      rw [Name.rename_ofVariable, h v rfl]
    · exact Name.rename_of_ne (not_exists.1 hvariable)

theorem Name.rename_register {r : String} (hr : r ∈ Register.generalPurpose) :
    Name.rename image r = r := by
  apply Name.rename_of_ne
  rintro v rfl
  exact Name.ofVariable_not_mem_generalPurpose v hr

theorem Name.map_rename_registers (image : String → String) (names : List Name)
    (h : ∀ name ∈ names, name ∈ Register.generalPurpose) :
    names.map (Name.rename image) = names := by
  rw [List.map_congr_left fun name hname => Name.rename_register (h name hname), List.map_id']

/-- A renamed holder has the renamed name, unless it is a register with the name of a variable that
is renamed. -/
theorem Holder.name_rename_iff {holder : Holder} :
    (holder.rename image).name = Name.rename image holder.name ↔
      ∀ r, holder = .register r → Name.rename image r = r := by
  cases holder with
  | register r =>
      constructor
      · intro h r' hr
        obtain rfl := Holder.register.inj hr
        exact h.symm
      · intro h
        exact (h r rfl).symm
  | var v => simp [rename, name]

namespace Item

@[simp] theorem isRegular_rename : (item.rename image).isRegular = item.isRegular := by
  cases item with
  | memory base offset => cases base <;> rfl
  | _ => rfl

@[simp] theorem isAddressed_rename : (item.rename image).isAddressed = item.isAddressed := by
  cases item with
  | memory base offset => cases base <;> rfl
  | _ => rfl

theorem var?_rename (haddressed : item.isAddressed = true) :
    (item.rename image).var? = item.var?.map image := by
  cases item with
  | memory base offset =>
      cases base with
      | register r => rfl
      | var v => rfl
      | _ => simp [isAddressed, isBase] at haddressed
  | _ => rfl

theorem name?_rename (hregular : item.isRegular = true) :
    (item.rename image).name? = item.name?.map (Name.rename image) := by
  rw [name?_eq_holder?, name?_eq_holder?, holder?_rename (isAddressed_of_isRegular hregular),
    Option.map_map, Option.map_map]
  apply Option.map_congr
  intro holder hholder
  apply Holder.name_rename_iff.2
  rintro r rfl
  exact Name.rename_register (generalPurpose_of_holder? hregular hholder)

end Item

namespace Instruction

theorem operands_rename :
    (instruction.rename image).operands = instruction.operands.map (Item.rename image) := by
  cases instruction with
  | call callee arguments => cases callee <;> rfl
  | _ => rfl

@[simp] theorem isRegular_rename :
    (instruction.rename image).isRegular = instruction.isRegular := by
  simp [isRegular, operands_rename, List.all_map, Function.comp_def]

@[simp] theorem isAddressed_rename :
    (instruction.rename image).isAddressed = instruction.isAddressed := by
  simp [isAddressed, operands_rename, List.all_map, Function.comp_def]

theorem vars_rename (hregular : instruction.isRegular = true) :
    (instruction.rename image).vars = instruction.vars.map image := by
  rw [vars, vars, operands_rename, List.filterMap_map, List.map_filterMap]
  apply List.filterMap_congr
  intro item hitem
  exact Item.var?_rename (Item.isAddressed_of_isRegular (isRegular_iff.1 hregular item hitem))

/-- **Renaming the variables renames what is read and what is written** exactly if no register that
is read or written has the name of a variable that is renamed. -/
theorem effect_rename_iff (haddressed : instruction.isAddressed = true) :
    (instruction.rename image).effect =
        ⟨instruction.gen.map (Name.rename image), instruction.kill.map (Name.rename image)⟩ ↔
      ∀ r, .register r ∈ instruction.access.reads ∨ .register r ∈ instruction.access.writes →
        Name.rename image r = r := by
  rw [gen, kill, effect_eq_access, effect_eq_access, access_rename haddressed]
  simp only [Access.effect, Access.rename, List.map_map, Effect.mk.injEq, List.map_inj_left,
    Function.comp_apply, Holder.name_rename_iff]
  constructor
  · rintro ⟨hreads, hwrites⟩ r (hmem | hmem)
    · exact hreads _ hmem r rfl
    · exact hwrites _ hmem r rfl
  · intro h
    constructor
    · rintro _ hmem r rfl
      exact h r (Or.inl hmem)
    · rintro _ hmem r rfl
      exact h r (Or.inr hmem)

/-- Renaming the variables of a regular instruction renames what it reads and what it writes. -/
theorem effect_rename (hregular : instruction.isRegular = true) :
    (instruction.rename image).effect =
      ⟨instruction.gen.map (Name.rename image), instruction.kill.map (Name.rename image)⟩ := by
  apply (effect_rename_iff (isAddressed_of_isRegular hregular)).2
  intro r hmem
  apply Name.rename_register
  rcases mem_access_iff.1 hmem with ⟨r', hr, heq⟩ | ⟨item, hitem, hholder⟩
  · obtain rfl := Holder.register.inj heq
    exact convention_subset hr
  · exact Item.generalPurpose_of_holder? (isRegular_iff.1 hregular item hitem) hholder

theorem gen_rename (hregular : instruction.isRegular = true) :
    (instruction.rename image).gen = instruction.gen.map (Name.rename image) := by
  rw [gen, effect_rename hregular]

theorem kill_rename (hregular : instruction.isRegular = true) :
    (instruction.rename image).kill = instruction.kill.map (Name.rename image) := by
  rw [kill, effect_rename hregular]

end Instruction

end Renaming

/-! ### Renaming twice -/

section RenamingTwice

variable {f g : String → String}

theorem Item.rename_rename (item : Item) :
    (item.rename f).rename g = item.rename fun v => g (f v) := by
  cases item with
  | memory base offset => cases base <;> rfl
  | _ => rfl

theorem Item.rename_congr {item : Item} (h : ∀ v, item.var? = some v → f v = g v) :
    item.rename f = item.rename g := by
  cases item with
  | var v => rw [rename, rename, h v rfl]
  | memory base offset =>
      cases base with
      | var v => rw [rename, rename, h v rfl]
      | _ => rfl
  | _ => rfl

theorem Instruction.rename_rename (instruction : Instruction) :
    (instruction.rename f).rename g = instruction.rename fun v => g (f v) := by
  cases instruction with
  | call callee arguments =>
      cases callee <;> simp [rename, Callee.rename, Item.rename_rename]
  | _ => simp [rename, Item.rename_rename]

theorem Instruction.rename_congr {instruction : Instruction}
    (h : ∀ v ∈ instruction.vars, f v = g v) : instruction.rename f = instruction.rename g := by
  have hitem : ∀ item ∈ instruction.operands, item.rename f = item.rename g := fun item hitem =>
    Item.rename_congr fun v hv => h v (List.mem_filterMap.2 ⟨item, hitem, hv⟩)
  cases instruction with
  | call callee arguments =>
      cases callee with
      | code address => simp_all [rename, Callee.rename, operands, Callee.operands]
      | service service => rfl
  | _ => simp_all [rename, operands]

end RenamingTwice

end RegisterColouring
