/-
**Liveness is exact, and least.**

What is live before an instruction can be said in two ways.  A name is live there if a path of
control leads to an instruction that reads it and nothing before the end of the path overwrites it;
and the sets of live names solve the equations of liveness.  The equations alone do not fix the
sets, since a loop may keep a name alive that nobody reads.  The analysis computes the sets of the
first kind, and these are the least ones of the second.

Main definitions:

* `RegisterColouring.Function.genAt`, `RegisterColouring.Function.killAt` — the names that are read
  and overwritten at a position;
* `RegisterColouring.Liveness.ReadPath` — a path of control that ends in a read;
* `RegisterColouring.Liveness.Solves` — the equations of liveness, for sets of names.

Main results:

* `RegisterColouring.Liveness.exists_readPath_iff` — paths to a read, as a sequence of positions;
* `RegisterColouring.Liveness.Solves.mem_before`, `RegisterColouring.Liveness.Solves.mem_after` —
  every solution holds the names on such paths;
* `RegisterColouring.Liveness.liveness_exact` — **the analysis computes the least solution**.
-/

import Mathlib.Data.Set.Lattice
import Mathlib.Order.Bounds.Basic
import RegisterColouring.Proofs.Machine

set_option autoImplicit false

namespace RegisterColouring

/-! ### Names read and overwritten at a position -/

/-- The names that the instruction at a position reads; none outside of the code. -/
def Function.genAt (function : Function) (i : Nat) : List Name :=
  (function.code[i]?.map Instruction.gen).getD []

/-- The names that the instruction at a position overwrites; none outside of the code. -/
def Function.killAt (function : Function) (i : Nat) : List Name :=
  (function.code[i]?.map Instruction.kill).getD []

section Positions

variable {function : Function} {i : Nat} {name : Name}

theorem Function.genAt_eq {instruction : Instruction} (hi : function.code[i]? = some instruction) :
    function.genAt i = instruction.gen := by
  simp [genAt, hi]

theorem Function.killAt_eq {instruction : Instruction}
    (hi : function.code[i]? = some instruction) : function.killAt i = instruction.kill := by
  simp [killAt, hi]

theorem Function.mem_genAt : name ∈ function.genAt i ↔
    ∃ instruction, function.code[i]? = some instruction ∧ name ∈ instruction.gen := by
  cases hi : function.code[i]? <;> simp [genAt, hi]

end Positions

namespace Liveness

/-! ### Paths to a read -/

/-- **A path of control that ends in a read**: `m` steps along the positions `p 0`, `p 1`, …, `p m`.
The instruction at its end reads the name, and none before the end overwrites it. -/
structure ReadPath (function : Function) (result : Liveness) (name : Name) (i m : Nat)
    (p : Nat → Nat) : Prop where
  start : p 0 = i
  along : ∀ j < m, p (j + 1) ∈ result.successorsAt (p j)
  read : name ∈ function.genAt (p m)
  kept : ∀ j < m, name ∉ function.killAt (p j)

section Paths

variable {function : Function} {result : Liveness} {name : Name} {i j m : Nat} {p : Nat → Nat}

theorem Analysed.mem_successorsAt (h : result.Analysed function) :
    j ∈ result.successorsAt i ↔ Flow function.code i j := by
  by_cases hlt : i < function.code.length
  · have hpoint := List.getElem?_eq_getElem (h.describes.length_eq ▸ hlt)
    rw [Liveness.successorsAt, hpoint]
    exact h.describes.successors i _ hpoint j
  · -- there are no successors outside of the code, and control never is there
    have hnone : result.points[i]? = none := by
      rw [List.getElem?_eq_none_iff, h.describes.length_eq]
      omega
    have hflow : ¬ Flow function.code i j := by
      intro hflow
      obtain ⟨instruction, hi⟩ := hflow.exists_instruction
      exact hlt (List.getElem?_eq_some_iff.1 hi).1
    simp [Liveness.successorsAt, hnone, hflow]

/-- The rest of a path after its first step. -/
theorem ReadPath.tail (h : ReadPath function result name i (m + 1) p) :
    ReadPath function result name (p 1) m fun j => p (j + 1) where
  start := rfl
  along j hj := h.along (j + 1) (by omega)
  read := h.read
  kept j hj := h.kept (j + 1) (by omega)

/-- One more step in front of a path. -/
theorem ReadPath.cons (h : ReadPath function result name j m p) (hj : j ∈ result.successorsAt i)
    (hkill : name ∉ function.killAt i) :
    ReadPath function result name i (m + 1) fun k => Nat.casesOn k i p where
  start := rfl
  along k hk := by
    cases k with
    | zero =>
        change p 0 ∈ result.successorsAt i
        rwa [h.start]
    | succ k => exact h.along k (by omega)
  read := h.read
  kept k hk := by
    cases k with
    | zero => exact hkill
    | succ k => exact h.kept k (by omega)

/-- **Live names are those with a path to a read**, given as a sequence of positions. -/
theorem exists_readPath_iff (h : result.Analysed function) :
    (∃ m p, ReadPath function result name i m p) ↔ LiveAt function.code name i := by
  constructor
  · rintro ⟨m, p, hpath⟩
    induction m generalizing i p with
    | zero =>
        obtain ⟨instruction, hi, hgen⟩ := Function.mem_genAt.1 hpath.read
        rw [hpath.start] at hi
        exact LiveAt.read hi hgen
    | succ m ih =>
        have hflow := h.mem_successorsAt.1 (hpath.along 0 (by omega))
        have hkill := hpath.kept 0 (by omega)
        rw [hpath.start] at hflow hkill
        obtain ⟨instruction, hi⟩ := hflow.exists_instruction
        rw [Function.killAt_eq hi] at hkill
        exact LiveAt.keep hi hkill hflow (ih _ hpath.tail)
  · intro hlive
    induction hlive with
    | @read i _ hi hgen =>
        refine ⟨0, fun _ => i, rfl, ?_, Function.mem_genAt.2 ⟨_, hi, hgen⟩, ?_⟩
        · intro j hj
          omega
        · intro j hj
          omega
    | keep hi hkill hflow _ ih =>
        obtain ⟨m, p, hpath⟩ := ih
        refine ⟨m + 1, _, hpath.cons (h.mem_successorsAt.2 hflow) ?_⟩
        rwa [Function.killAt_eq hi]

end Paths

/-! ### The equations -/

/-- **The equations of liveness**, for sets of names before and after every instruction. -/
structure Solves (function : Function) (result : Liveness) (before after : Nat → Set Name) :
    Prop where
  after_eq : ∀ i, after i = {name | ∃ j ∈ result.successorsAt i, name ∈ before j}
  before_eq : ∀ i, before i =
    {name | name ∈ function.genAt i} ∪ (after i \ {name | name ∈ function.killAt i})

section Equations

variable {function : Function} {result : Liveness} {before after : Nat → Set Name}

/-- Every solution holds the names on a path to a read. -/
theorem Solves.mem_before (hsolves : Solves function result before after)
    (h : result.Analysed function) {name : Name} {i : Nat} (hlive : LiveAt function.code name i) :
    name ∈ before i := by
  induction hlive with
  | read hi hgen =>
      rw [hsolves.before_eq]
      exact Or.inl (Function.mem_genAt.2 ⟨_, hi, hgen⟩)
  | @keep i j _ hi hkill hflow _ ih =>
      rw [hsolves.before_eq]
      refine Or.inr ⟨?_, by simpa [Function.killAt_eq hi] using hkill⟩
      rw [hsolves.after_eq]
      exact ⟨j, h.mem_successorsAt.2 hflow, ih⟩

theorem Solves.mem_after (hsolves : Solves function result before after)
    (h : result.Analysed function) {name : Name} {i : Nat}
    (hlive : LiveAfter function.code name i) : name ∈ after i := by
  obtain ⟨j, hflow, hj⟩ := hlive
  rw [hsolves.after_eq]
  exact ⟨j, h.mem_successorsAt.2 hflow, hsolves.mem_before h hj⟩

theorem Analysed.mem_liveAfter_iff (h : result.Analysed function) {name : Name} {i : Nat} :
    name ∈ result.liveAfter i ↔ ∃ j ∈ result.successorsAt i, name ∈ result.liveBefore j := by
  simp only [h.mem_liveAfter, h.mem_liveBefore, h.mem_successorsAt, LiveAfter]

/-- The live names solve the equations. -/
theorem Analysed.solves (h : result.Analysed function) :
    Solves function result (fun i => {name | name ∈ result.liveBefore i})
      (fun i => {name | name ∈ result.liveAfter i}) where
  after_eq i := Set.ext fun name => h.mem_liveAfter_iff
  before_eq i := by
    ext name
    simp only [Set.mem_ofPred_eq, Set.mem_union, Set.mem_sdiff, h.mem_liveBefore, h.mem_liveAfter]
    cases hi : function.code[i]? with
    | some instruction =>
        rw [liveAt_iff hi, Function.genAt_eq hi, Function.killAt_eq hi, and_comm]
    | none =>
        have hno : ¬ LiveAt function.code name i := by
          intro hlive
          exact absurd hlive.lt (by simpa using hi)
        have hno' : ¬ LiveAfter function.code name i := by
          rintro ⟨j, hflow, -⟩
          obtain ⟨instruction, hsome⟩ := hflow.exists_instruction
          simp [hi] at hsome
        simp [hno, hno', Function.genAt, hi]

end Equations

/-- **Liveness is exact.**  A name is live before an instruction exactly if a path of control leads
from there to a read, with nothing on the way that overwrites it; it is live after an instruction
exactly if it is live before one of its successors, which are where control can go.  The sets of live
names are the least ones that solve the equations. -/
theorem liveness_exact {function : Function} {result : Liveness}
    (hanalyse : analyse function = .ok result) :
    (∀ i j, j ∈ result.successorsAt i ↔ Flow function.code i j) ∧
    (∀ i name, name ∈ result.liveBefore i ↔ ∃ m p, ReadPath function result name i m p) ∧
    (∀ i name, name ∈ result.liveAfter i ↔
      ∃ j ∈ result.successorsAt i, name ∈ result.liveBefore j) ∧
    IsLeast {sets : (Nat → Set Name) × (Nat → Set Name) |
        Solves function result sets.1 sets.2}
      (fun i => {name | name ∈ result.liveBefore i},
        fun i => {name | name ∈ result.liveAfter i}) := by
  have hresult := analysed_of_analyse hanalyse
  refine ⟨fun i j => hresult.mem_successorsAt, fun i name => ?_,
    fun i name => hresult.mem_liveAfter_iff, hresult.solves, ?_⟩
  · rw [hresult.mem_liveBefore, exists_readPath_iff hresult]
  · rintro ⟨before, after⟩ hsolves
    exact ⟨fun i name hname => Solves.mem_before hsolves hresult (hresult.mem_liveBefore.1 hname),
      fun i name hname => Solves.mem_after hsolves hresult (hresult.mem_liveAfter.1 hname)⟩

/-- A function that counts up to its argument. -/
def counting : Function :=
  .ofCode "counting" 1 [.assign (.var "i") (.number 0), .label "top",
    .jumpIf .lessOrEqual (.register "rdi") (.var "i") "done", .step (.var "i") .up, .goto "top",
    .label "done", .assign (.register "rax") (.var "i"), .ret]

/-- The counter is alive at the jump back, from where two steps lead to its next read. -/
theorem counting_liveness_exact :
    ∃ result, analyse counting = .ok result ∧ "%i" ∈ result.liveBefore 4 ∧
      ¬ ∃ m p, ReadPath counting result "%i" 0 m p := by
  have hexact := liveness_exact (show analyse counting = .ok _ from rfl)
  refine ⟨_, rfl, (hexact.2.1 4 "%i").2 ⟨2, fun j => [4, 1, 2].getD j 0, rfl, ?_, ?_, ?_⟩, ?_⟩
  · decide
  · decide
  · decide
  · rw [← hexact.2.1 0 "%i"]
    decide +kernel

end Liveness

end RegisterColouring
