/-
**Colouring preserves meaning.**

A machine may keep the names of a function in other places, as long as no instruction overwrites the
place of another name whose value is still needed.  Then it does, step by step, what a machine with
a place for every name does.  The registers of a colouring are such places.

Main definitions:

* `RegisterColouring.Separates` — no value that is still needed is overwritten;
* `RegisterColouring.Agree` — two machines agree on what is still needed.

Main results:

* `RegisterColouring.Agree.run` — machines with separate places stay in agreement;
* `RegisterColouring.place_separates` — the registers of a colouring are separate places;
* `RegisterColouring.place_shiftAmount` — the amount of a shift is in the register for it;
* `RegisterColouring.coloured_runs_agree` — **colouring preserves meaning**.
-/

import RegisterColouring.Proofs.Machine
import RegisterColouring.Proofs.Operands
import RegisterColouring.Proofs.Selection

set_option autoImplicit false

namespace RegisterColouring

variable {Value Hidden : Type}

/-! ### Separate places -/

/-- No instruction overwrites the place of another name whose value is needed after it. -/
def Separates (code : List Instruction) (place : Name → Name) : Prop :=
  ∀ (i : Nat) (instruction : Instruction) (name other : Name), code[i]? = some instruction →
    LiveAfter code name i → other ∈ instruction.kill → other ≠ name → place other ≠ place name

theorem separates_id (code : List Instruction) : Separates code id :=
  fun _ _ _ _ _ _ _ hne => hne

/-- **Two machines agree**: they are at the same position in the same hidden state, and every name
whose value is still needed has the same value in both. -/
structure Agree (code : List Instruction) (left right : Name → Name)
    (a b : Configuration Value Hidden) : Prop where
  position : a.position = b.position
  hidden : a.hidden = b.hidden
  store : ∀ j, a.position = some j → ∀ name, LiveAt code name j →
    a.store (left name) = b.store (right name)

section Steps

variable {function : Function} {result : Liveness} {act : Action Value Hidden}
  {left right : Name → Name} {a b : Configuration Value Hidden}

/-- A name that is needed after an instruction has the value that the instruction gave it, if any,
or the one that it had. -/
theorem overwrite_of_liveAfter {code : List Instruction} {place : Name → Name}
    (hplace : Separates code place) {i : Nat} {instruction : Instruction} {name : Name}
    {value : Name → Value} {store : Name → Value} (hi : code[i]? = some instruction)
    (hlive : LiveAfter code name i) :
    overwrite place value instruction.kill store (place name) =
      if name ∈ instruction.kill then value name else store (place name) := by
  split
  · next hkill =>
    exact overwrite_of_mem hkill fun other hother => hplace i instruction name other hi hlive hother
  · next hkill =>
    apply overwrite_of_ne
    intro other hother
    apply hplace i instruction name other hi hlive hother
    rintro rfl
    exact hkill hother

/-- **Machines that agree still agree after a step.** -/
theorem Agree.step (hresult : result.Analysed function) (hleft : Separates function.code left)
    (hright : Separates function.code right) (h : Agree function.code left right a b) :
    Agree function.code left right (result.step act left a) (result.step act right b) := by
  obtain ⟨pa, sa, ha⟩ := a
  obtain ⟨pb, sb, hb⟩ := b
  obtain ⟨hposition, hhidden, hstore⟩ := h
  dsimp only at hposition hhidden hstore
  subst hposition hhidden
  cases pa with
  | none => exact ⟨rfl, rfl, fun j hj => by simp at hj⟩
  | some i =>
      cases hi : function.code[i]? with
      | none =>
          rw [← hresult.function_eq] at hi
          rw [Liveness.step_outside hi, Liveness.step_outside hi]
          exact ⟨rfl, rfl, fun j hj => by simp at hj⟩
      | some instruction =>
          -- what is read is live, so both machines read the same values
          have hread : (instruction.gen.map fun name => sa (left name)) =
              instruction.gen.map fun name => sb (right name) :=
            List.map_congr_left fun name hname => hstore i rfl name (LiveAt.read hi hname)
          have hi' : result.function.code[i]? = some instruction := by rw [hresult.function_eq, hi]
          rw [Liveness.step_eq hi' rfl, Liveness.step_eq hi' rfl, hread]
          refine ⟨rfl, rfl, ?_⟩
          -- what is live afterwards was given the same value by both, or was live before
          intro j hj name hlive
          have hafter : LiveAfter function.code name i :=
            ⟨j, hresult.flow_of_successor hi hj, hlive⟩
          dsimp only
          rw [overwrite_of_liveAfter hleft hi hafter, overwrite_of_liveAfter hright hi hafter]
          split
          · rfl
          · next hkill => exact hstore i rfl name ((liveAt_iff hi).2 (Or.inr ⟨hkill, hafter⟩))

/-- **Machines that agree stay in agreement.** -/
theorem Agree.run (act : Action Value Hidden) (hresult : result.Analysed function)
    (hleft : Separates function.code left)
    (hright : Separates function.code right) (h : Agree function.code left right a b) (n : Nat) :
    Agree function.code left right (result.run act left n a) (result.run act right n b) := by
  induction n generalizing a b with
  | zero => exact h
  | succ n ih => exact ih (h.step hresult hleft hright)

end Steps

/-! ### The registers of a colouring -/

section Registers

variable {function : Function} {result : Liveness} {name : String} {options : ColouringOptions}
  {assigned : List (Name × String)} {optimistic : Nat} (hresult : result.Analysed function)
  (hcolour : (Graph.ofLiveness result).colour name options = .ok ⟨.registers assigned, optimistic⟩)

include hresult hcolour

theorem place_ne_of_conflict {u w : Name} (hu : u ∈ result.vocabulary.names)
    (hw : w ∈ result.vocabulary.names) (h : Conflict function.code u w) :
    place assigned u ≠ place assigned w := by
  apply Graph.place_ne (Graph.simple_ofLiveness hresult) _ hcolour
  · exact (Graph.interferes_iff hresult).2 ⟨hu, hw, h⟩
  · rw [Graph.vocabulary_ofLiveness]
    exact hresult.nodup

/-- **The registers of a colouring are separate places.** -/
theorem place_separates : Separates function.code (place assigned) := by
  intro i instruction name other hi hlive hkill hne
  have hother : other ∈ result.vocabulary.names :=
    hresult.known instruction (List.mem_of_getElem? hi) other (Or.inr hkill)
  have hname : name ∈ result.vocabulary.names := by
    obtain ⟨j, -, hj⟩ := hlive
    exact hresult.known_of_liveAt hj
  apply place_ne_of_conflict hresult hcolour hother hname
  exact ⟨hne, Or.inr ⟨i, instruction, hi, Or.inr (Or.inr (Or.inl ⟨hkill, hlive⟩))⟩⟩

theorem place_mem_generalPurpose {u : Name} (hu : u ∈ result.vocabulary.names) :
    place assigned u ∈ Register.generalPurpose := by
  apply Graph.place_mem (Graph.simple_ofLiveness hresult) _ hcolour
  · rwa [Graph.vocabulary_ofLiveness]
  · rw [Graph.vocabulary_ofLiveness]
    exact hresult.nodup

theorem place_of_register {u : Name} (hu : u ∈ Register.generalPurpose) :
    place assigned u = u := by
  apply Graph.place_register (Graph.simple_ofLiveness hresult) _ hcolour hu
  rw [Graph.vocabulary_ofLiveness]
  exact hresult.nodup

/-- **A variable that is the amount of a shift is in the register for amounts**, since it conflicts
with all others. -/
theorem place_shiftAmount {instruction : Instruction} {u : Name}
    (hmem : instruction ∈ function.code) (hshift : instruction.shiftName? = some u)
    (hvariable : u ∉ Register.generalPurpose) : place assigned u = Register.shiftAmount := by
  have hu : u ∈ result.vocabulary.names :=
    hresult.known instruction hmem u (Or.inl (Instruction.shiftName?_mem_gen hshift))
  have hplace := place_mem_generalPurpose hresult hcolour hu
  have hw : place assigned u ∈ result.vocabulary.names := by
    rw [hresult.vocabulary_eq, Vocabulary.ofFunction, Vocabulary.mem_names_ofVariables]
    exact Or.inl hplace
  obtain ⟨i, hi⟩ := List.mem_iff_getElem?.1 hmem
  by_contra hne
  refine place_ne_of_conflict hresult hcolour hu hw ⟨?_, Or.inr ⟨i, instruction, hi, ?_⟩⟩
    (place_of_register hresult hcolour hplace).symm
  · intro hself
    exact hvariable (hself ▸ hplace)
  · exact Or.inr (Or.inr (Or.inr (Or.inr (Or.inl ⟨hshift, hplace, hne⟩))))

end Registers

/-! ### Runs of coloured code -/

/-- **Colouring preserves meaning.**  Every name of the function is placed in a general purpose
register, and a register in itself; a variable that is the amount of a shift is in the register for
amounts.  Run from any instruction, from stores that agree on what is live there and in the same
hidden state, a machine with a place for every name and one with the registers visit the same
instructions, in the same hidden states, and agree on what is live at each. -/
theorem coloured_runs_agree {function : Function} {result : Liveness} {name : String}
    {options : ColouringOptions} {colouring : Colouring} {assigned : List (Name × String)}
    (hanalyse : Liveness.analyse function = .ok result)
    (hcolour : (Graph.ofLiveness result).colour name options = .ok colouring)
    (hassigned : colouring.registers? = some assigned) :
    (∀ n ∈ result.vocabulary.names, place assigned n ∈ Register.generalPurpose) ∧
    (∀ n ∈ Register.generalPurpose, place assigned n = n) ∧
    (∀ instruction ∈ function.code, ∀ n, instruction.shiftName? = some n →
      n ∉ Register.generalPurpose → place assigned n = Register.shiftAmount) ∧
    ∀ (Value Hidden : Type) (act : Action Value Hidden) (i : Nat) (names registers : Name → Value)
      (hidden : Hidden), (∀ n ∈ result.liveBefore i, names n = registers (place assigned n)) →
      ∀ steps,
        let a := result.run act id steps ⟨some i, names, hidden⟩
        let b := result.run act (place assigned) steps ⟨some i, registers, hidden⟩
        a.position = b.position ∧ a.hidden = b.hidden ∧ ∀ j, a.position = some j →
          ∀ n ∈ result.liveBefore j, a.store n = b.store (place assigned n) := by
  have hresult := Liveness.analysed_of_analyse hanalyse
  obtain ⟨assignment, optimistic⟩ := colouring
  cases assignment with
  | spills names => simp [Colouring.registers?] at hassigned
  | registers assigned' =>
      obtain rfl : assigned' = assigned := Option.some_inj.1 hassigned
      refine ⟨fun n hn => place_mem_generalPurpose hresult hcolour hn,
        fun n hn => place_of_register hresult hcolour hn,
        fun instruction hmem n hn hvariable =>
          place_shiftAmount hresult hcolour hmem hn hvariable, ?_⟩
      intro Value Hidden act i names registers hidden hagree steps
      have hstart : Agree function.code id (place assigned') ⟨some i, names, hidden⟩
          ⟨some i, registers, hidden⟩ := by
        refine ⟨rfl, rfl, ?_⟩
        intro j hj n hlive
        obtain rfl : i = j := Option.some_inj.1 hj
        exact hagree n (hresult.mem_liveBefore.2 hlive)
      obtain ⟨hposition, hhidden, hstore⟩ :=
        hstart.run act hresult (separates_id _) (place_separates hresult hcolour) steps
      refine ⟨hposition, hhidden, ?_⟩
      intro j hj n hn
      exact hstore j hj n (hresult.mem_liveBefore.1 hn)

/-- A function that shifts one variable by another. -/
def shifting : Function :=
  .ofCode "shifting" 1 [.assign (.var "amount") (.register "rdi"),
    .assign (.var "value") (.number 1), .shift .left (.var "value") (.var "amount"),
    .assign (.register "rax") (.var "value"), .ret]

theorem shifting_runs_agree :
    ∃ result colouring assigned, Liveness.analyse shifting = .ok result ∧
      (Graph.ofLiveness result).colour "shifting" ⟨.highestDegree, []⟩ = .ok colouring ∧
      colouring.registers? = some assigned ∧ result.liveBefore 2 = ["%amount", "%value", "r12",
        "r13", "r14", "r15", "rbp", "rbx"] ∧ place assigned "%amount" = Register.shiftAmount ∧
      ∀ steps, let act : Action Nat Nat := fun i _ read hidden =>
          ⟨fun _ => read.foldl (· + ·) 0, hidden + i, 0⟩
        (result.run act id steps ⟨some 0, fun _ => 7, 0⟩).hidden =
          (result.run act (place assigned) steps ⟨some 0, fun _ => 7, 0⟩).hidden := by
  have hamount : .shift .left (.var "value") (.var "amount") ∈ shifting.code := by decide
  have hagree := coloured_runs_agree (show Liveness.analyse shifting = .ok _ from rfl)
    (show Graph.colour _ "shifting" ⟨.highestDegree, []⟩ = .ok _ from rfl) rfl
  refine ⟨_, _, _, rfl, rfl, rfl, by decide +kernel, ?_, ?_⟩
  · exact hagree.2.2.1 _ hamount _ rfl (by decide)
  · intro steps act
    exact (hagree.2.2.2 Nat Nat act 0 (fun _ => 7) (fun _ => 7) 0 (fun _ _ => rfl) steps).2.1

end RegisterColouring
