/-
**Reading by position.**

A list of terms can be taken apart by its shape, or by asking for its elements one by one.  The
second way needs care: an element that is asked for must be there, and only the length of the list
says whether it is.  A complaint about a term also needs care if the place of the term comes from a
table, where the term must be found.  This module reads programs, functions and spill requests in
the second way, with a fault wherever something is asked for that is not there, and says what it
means that the two ways agree: the second one does not go wrong, and its complaints are about places
that are in the table.

Main definitions:

* `RegisterColouring.Checked` — what is read by position;
* `RegisterColouring.ByPosition.instruction`, `RegisterColouring.ByPosition.function`,
  `RegisterColouring.ByPosition.program` — reading by position;
* `RegisterColouring.ByPosition.readFunction`, `RegisterColouring.ByPosition.readProgram`,
  `RegisterColouring.ByPosition.readSpillRequest` — the same from the characters of a text;
* `RegisterColouring.Agrees` — the two ways of reading agree.

Main results:

* `RegisterColouring.Agrees.bind` — **they agree on a whole if they agree on its parts**, one after
  the other;
* `RegisterColouring.Agrees.three`, `RegisterColouring.Agrees.all` — the same for parts whose issues
  are collected.
-/

import Mathlib.Data.List.Forall2
import RegisterColouring.Code.Reading
import RegisterColouring.Proofs.RecordedTerms

set_option autoImplicit false

namespace RegisterColouring

/-- What is read by position: a value, the issues that stand in its way, or a fault. -/
abbrev Checked (α : Type) := ExceptT (List Issue) (Except ReadingFault) α

namespace ByPosition

variable {α β γ δ : Type} (table : SpanTable)

/-! ### Elements and places -/

/-- The element of a list at a position. -/
def element (elements : List Term) (i : Nat) : Checked Term :=
  match elements[i]? with
  | some term => pure term
  | none => ExceptT.mk (.error (.outOfRange i elements.length))

/-- The elements of a list from a position on. -/
def elementsFrom (elements : List Term) (i : Nat) : Checked (List Term) :=
  if i ≤ elements.length then pure (elements.drop i)
  else ExceptT.mk (.error (.outOfRange i elements.length))

/-- A single complaint about a term, at the place that the table has for it. -/
def refuse (term : Term) (complaint : Complaint) : Checked α := ExceptT.mk do
  let span ← table.placeOf term
  .ok (.error [⟨span, complaint⟩])

/-- What a term is read as; a complaint is about the place that the table has for the term. -/
def ask (read : Term → Read α) (term : Term) : Checked α :=
  match read term with
  | .ok a => pure a
  | .error issues => ExceptT.mk do
    let span ← table.placeOf term
    .ok (.error (issues.map fun issue => ⟨span, issue.complaint⟩))

/-- What the element of a list at a position is read as. -/
def operand (read : Term → Read α) (elements : List Term) (i : Nat) : Checked α := do
  let term ← element elements i
  ask table read term

/-- Three results, with the issues of all three. -/
def three (first : Checked α) (second : Checked β) (third : Checked γ) (make : α → β → γ → δ) :
    Checked δ := ExceptT.mk do
  let first ← first.run
  let second ← second.run
  let third ← third.run
  match first, second, third with
  | .ok a, .ok b, .ok c => .ok (.ok (make a b c))
  | first, second, third => .ok (.error (Read.issues first ++ Read.issues second ++
      Read.issues third))

/-- A result whose issues are held back, to be looked at later. -/
def held (result : Checked α) : Checked (Read α) := ExceptT.mk do
  let result ← result.run
  .ok (.ok result)

/-- A result that was held back. -/
def released (result : Read α) : Checked α := ExceptT.mk (.ok result)

/-- All results, or the issues of all of them. -/
def all (results : List (Checked α)) : Checked (List α) := ExceptT.mk do
  let results ← results.mapM ExceptT.run
  .ok (Read.all results)

/-! ### Instructions -/

/-- The memory cell whose keyword is at a position. -/
def memory (elements : List Term) (i : Nat) : Checked Item := do
  let base ← operand table (Term.itemWith Item.isBase .registerOrVariable) elements (i + 1)
  let offset ← operand table (Term.numberWith (· % 8 == 0) .misalignedOffset) elements (i + 2)
  match Item.cell base offset with
  | .ok cell => pure cell
  | .error fault => ExceptT.mk (.error (.base fault))

/-- The operands of a comparison that starts at a position. -/
def comparands (elements : List Term) (i : Nat) (make : Item → Comparison → Item → Instruction) :
    Checked Instruction :=
  three (operand table Term.valueItem elements i) (operand table Term.comparison elements (i + 1))
    (operand table Term.valueItem elements (i + 2)) make

/-- A jump. -/
def goto (whole : Term) (elements : List Term) : Checked Instruction :=
  if elements.length ≠ 2 then refuse table whole .malformedGoto
  else do
    let target ← operand table Term.labelName elements 1
    pure (.goto target)

/-- A call. -/
def call (whole : Term) (elements : List Term) : Checked Instruction :=
  if elements.length ≠ 3 then refuse table whole .malformedCall
  else do
    let arguments ← operand table (Term.numberWith (0 ≤ ·) .argumentCount) elements 2
    let callee ← operand table Instruction.calleeOf elements 1
    pure (.call callee arguments)

/-- A conditional jump.  The comparison is read first, but an issue of the target goes before its
issues. -/
def jumpIf (whole : Term) (elements : List Term) : Checked Instruction :=
  if elements.length ≠ 5 then refuse table whole .malformedJump
  else do
    let left ← held (operand table Term.valueItem elements 1)
    let op ← held (operand table Term.comparison elements 2)
    let right ← held (operand table Term.valueItem elements 3)
    let target ← operand table Term.labelName elements 4
    three (released left) (released op) (released right) fun left op right =>
      .jumpIf op left right target

/-- A store into memory, or arithmetic on a memory cell.  The source is asked for before the operator
is looked at. -/
def memoryInstruction (whole : Term) (elements : List Term) : Checked Instruction :=
  if elements.length ≠ 5 then refuse table whole .malformedMemory
  else do
    let target ← memory table elements 0
    let source ← element elements 4
    if Term.symbolAt elements 3 = "<-" then
      let source ← ask table (Term.itemWith (fun _ => true) .source) source
      pure (.assign target source)
    else match ArithOp.ofText? (Term.symbolAt elements 3) with
      | some operator =>
        if operator.worksOnMemory then
          let source ← ask table Term.valueItem source
          pure (.memoryArith operator target source)
        else do
          let op ← element elements 3
          refuse table op .unknownOperator
      | none => do
        let op ← element elements 3
        refuse table op .unknownOperator

/-- An assignment. -/
def assignment (whole : Term) (elements : List Term) : Checked Instruction := do
  let target ← operand table Term.writableItem elements 0
  if elements.length = 3 then
    let source ← operand table (Term.itemWith (fun _ => true) .source) elements 2
    pure (.assign target source)
  else if elements.length = 4 ∧ Term.symbolAt elements 2 = "stack-arg" then
    let offset ← operand table (Term.numberWith (fun _ => true) .offset) elements 3
    pure (.stackArgument target offset)
  else if elements.length = 5 ∧ Term.symbolAt elements 2 = "mem" then
    let source ← memory table elements 2
    pure (.assign target source)
  else if elements.length = 5 then
    comparands table elements 2 fun left op right => .compare target op left right
  else refuse table whole .malformedAssignment

/-- Arithmetic on a register or variable. -/
def arith (whole : Term) (op : ArithOp) (elements : List Term) : Checked Instruction := do
  let target ← operand table Term.writableItem elements 0
  if elements.length = 5 ∧ Term.symbolAt elements 2 = "mem" ∧ op.worksOnMemory then
    let source ← memory table elements 2
    pure (.memoryArith op target source)
  else if elements.length ≠ 3 then refuse table whole .malformedArithmetic
  else
    let source ← operand table Term.valueItem elements 2
    pure (.arith op target source)

/-- A shift. -/
def shift (whole : Term) (op : ShiftOp) (elements : List Term) : Checked Instruction :=
  if elements.length ≠ 3 then refuse table whole .malformedShift
  else do
    let target ← operand table Term.writableItem elements 0
    let amount ← operand table (Term.itemWith Instruction.isShiftAmount .shiftAmount) elements 2
    pure (.shift op target amount)

/-- An address computation. -/
def address (whole : Term) (elements : List Term) : Checked Instruction :=
  if elements.length ≠ 5 then refuse table whole .malformedAddress
  else do
    let target ← element elements 0
    let base ← element elements 2
    let index ← element elements 3
    match target.writableItem, base.writableItem, index.writableItem with
    | .ok target, .ok base, .ok index => do
      let scale ← operand table (Term.numberWith Instruction.isScale .scale) elements 4
      pure (.address target base index scale)
    | _, _, _ => refuse table whole .registerOrVariable

/-- An instruction whose operator stands in second place. -/
def operator (whole : Term) (elements : List Term) : Checked Instruction :=
  if Term.symbolAt elements 1 = "<-" then assignment table whole elements
  else match ArithOp.ofText? (Term.symbolAt elements 1) with
    | some op => arith table whole op elements
    | none =>
      match ShiftOp.ofText? (Term.symbolAt elements 1) with
      | some op => shift table whole op elements
      | none =>
        if Term.symbolAt elements 1 = "@" then address table whole elements
        else do
          let op ← element elements 1
          refuse table op .unknownOperator

/-- An instruction in parentheses. -/
def parenthesised (whole : Term) (elements : List Term) : Checked Instruction :=
  if elements.length = 0 then refuse table whole .emptyInstruction
  else if elements.length = 1 then
    ask table (Instruction.ofWord · (Term.symbolAt elements 0)) whole
  else if Term.symbolAt elements 0 = "goto" then goto table whole elements
  else if Term.symbolAt elements 0 = "call" then call table whole elements
  else if Term.symbolAt elements 0 = "cjump" then jumpIf table whole elements
  else if Term.symbolAt elements 0 = "mem" then memoryInstruction table whole elements
  else if elements.length < 3 then refuse table whole .unknownInstruction
  else operator table whole elements

/-- **The instruction that a term denotes**, read by position. -/
def instruction (term : Term) : Checked Instruction :=
  match term with
  | .symbol _ _ => ask table Instruction.ofTerm term
  | .list _ elements => parenthesised table term elements

/-! ### Functions, programs and spill requests -/

/-- **The function that a term denotes**, read by position. -/
def function (term : Term) : Checked Function :=
  match term with
  | .symbol _ _ => refuse table term .function
  | .list _ elements =>
    if elements.length < 2 then refuse table term .function
    else do
      let name ← operand table (Term.functionName .functionName) elements 0
      let arity ← operand table (Term.numberWith (0 ≤ ·) .functionArity) elements 1
      let body ← elementsFrom elements 2
      let code ← all (body.map (instruction table))
      pure (Function.ofCode name arity code)

/-- The functions that terms denote, after the ones that have been read. -/
def functionsOf (known : List Function) : List Term → Except ReadingFault (List (Read Function))
  | [] => .ok []
  | term :: terms => do
    match ← (function table term).run with
    | .error issues =>
      let rest ← functionsOf known terms
      .ok (.error issues :: rest)
    | .ok function =>
      if known.any (·.name == function.name) then
        let refusal ← (refuse table term .duplicateFunction).run
        let rest ← functionsOf known terms
        .ok (refusal :: rest)
      else
        let rest ← functionsOf (known ++ [function]) terms
        .ok (.ok function :: rest)

/-- **The program that a term denotes**, read by position. -/
def program (term : Term) : Checked Program :=
  match term with
  | .symbol _ _ => refuse table term .program
  | .list _ elements =>
    if elements.length = 0 then refuse table term .program
    else do
      let head ← element elements 0
      let entry ← ask table (Term.functionName .entryName) head
      let rest ← elementsFrom elements 1
      let functions ← ExceptT.mk do
        let results ← functionsOf table [] rest
        .ok (Read.all results)
      let program : Program := ⟨entry, functions⟩
      if (program.find? entry).isSome then pure program else refuse table head .unknownEntry

/-- The spill request that three terms denote, read by position. -/
def spillRequest (terms : List Term) : Checked SpillRequest :=
  three (element terms 0 >>= function table) (operand table Term.variableName terms 1)
    (operand table Term.variableName terms 2) SpillRequest.mk

/-- A single term of a text, handed on with the table of the terms in it. -/
def one (read : SpanTable → Term → Checked α) (source : Source) :
    Except ReadingFault (Read α) := do
  match ← Term.readOneRecorded source with
  | .ok (term, table) => (read table term).run
  | .error issue => .ok (.error [issue])

/-- **The spill request of a text**, read by position. -/
def readSpillRequest (source : Source) : Except ReadingFault (Read SpillRequest) := do
  match ← Term.readAllRecorded source with
  | .error issue => .ok (.error [issue])
  | .ok (terms, table) =>
    if terms.length ≠ 3 then do
      let span ← (Span.mk 0 source.text.length).checked
      .ok (.error [⟨span, .spillRequest⟩])
    else (spillRequest table terms).run

end ByPosition

/-! ### The two ways of reading -/

/-- A result that is a value, or some issues that are about places in a table. -/
structure Read.Answers {α : Type} (table : SpanTable) (result : Read α) : Prop where
  located : ∀ issue ∈ result.issues, issue.span ∈ table.entries.map Prod.snd
  nonempty : ∀ issues, result = .error issues → issues ≠ []

/-- **The two ways of reading agree**: reading by position does not go wrong, and yields what
reading by shape does. -/
structure Agrees {α : Type} (table : SpanTable) (checked : Checked α) (result : Read α) :
    Prop where
  run_eq : checked.run = .ok result
  answers : result.Answers table

/-- A value, or a single complaint about a term. -/
inductive Read.Single {α : Type} (term : Term) : Read α → Prop
  | ok (a : α) : Single term (.ok a)
  | refuse (complaint : Complaint) : Single term (Read.refuse term complaint)

section

variable {α β γ δ : Type} {table : SpanTable} {term : Term} {elements : List Term}

theorem Read.answers_ok (a : α) : Read.Answers table (.ok a : Read α) :=
  ⟨by simp, fun issues h => by simp at h⟩

theorem Read.answers_refuse (h : table.Recorded term) (complaint : Complaint) :
    Read.Answers table (Read.refuse term complaint : Read α) := by
  have hplace := SpanTable.placeOf_eq_ok_iff.1 h.placeOf_eq
  obtain ⟨before, after, hentries, -⟩ := List.lookup_eq_some_iff.1 hplace
  refine ⟨?_, ?_⟩
  · intro issue hissue
    obtain rfl := List.mem_singleton.1 hissue
    rw [hentries]
    simp
  · rintro issues hissues rfl
    simp [Read.refuse] at hissues

namespace Agrees

theorem pure (a : α) : Agrees table (pure a) (.ok a : Read α) := ⟨rfl, Read.answers_ok a⟩

theorem refuse (h : table.Recorded term) (complaint : Complaint) :
    Agrees table (ByPosition.refuse table term complaint : Checked α)
      (Read.refuse term complaint) := by
  refine ⟨?_, Read.answers_refuse h complaint⟩
  rw [ByPosition.refuse, h.placeOf_eq]
  rfl

/-- **The two ways agree on a whole if they agree on its parts.** -/
theorem bind {checked : Checked α} {result : Read α} {next : α → Checked β} {next' : α → Read β}
    (h : Agrees table checked result)
    (hnext : ∀ a, result = .ok a → Agrees table (next a) (next' a)) :
    Agrees table (checked >>= next) (result >>= next') := by
  have hrun := h.run_eq
  cases result with
  | ok a =>
      refine ⟨?_, (hnext a rfl).answers⟩
      rw [ExceptT.run_bind, hrun]
      exact (hnext a rfl).run_eq
  | error issues =>
      refine ⟨?_, ⟨h.answers.located, fun other hother => ?_⟩⟩
      · rw [ExceptT.run_bind, hrun]
        rfl
      · obtain rfl := Except.error.inj hother
        exact h.answers.nonempty issues rfl

/-- An element that is there does not matter to how things go on. -/
theorem element_bind {i : Nat} {next : Term → Checked α} {result : Read α}
    (hi : elements[i]? = some term) (h : Agrees table (next term) result) :
    Agrees table (ByPosition.element elements i >>= next) result := by
  have heq : ByPosition.element elements i = Pure.pure term := by rw [ByPosition.element, hi]
  rw [heq, pure_bind]
  exact h

/-- A result that is held back leaves the rest to what comes after it, whatever its issues. -/
theorem held_bind {checked : Checked α} {result : Read α} {next : Read α → Checked β}
    {result' : Read β} (h : Agrees table checked result)
    (hnext : Agrees table (next result) result') :
    Agrees table (ByPosition.held checked >>= next) result' := by
  refine ⟨?_, hnext.answers⟩
  rw [ExceptT.run_bind, ByPosition.held, ExceptT.run_mk, h.run_eq]
  exact hnext.run_eq

theorem released {checked : Checked α} {result : Read α} (h : Agrees table checked result) :
    Agrees table (ByPosition.released result) result := ⟨rfl, h.answers⟩

theorem elementsFrom_bind {i : Nat} {next : List Term → Checked α} {result : Read α}
    (hi : i ≤ elements.length) (h : Agrees table (next (elements.drop i)) result) :
    Agrees table (ByPosition.elementsFrom elements i >>= next) result := by
  rw [ByPosition.elementsFrom, if_pos hi, pure_bind]
  exact h

theorem ask (read : Term → Read α) (hread : (read term).Single term) (h : table.Recorded term) :
    Agrees table (ByPosition.ask table read term) (read term) := by
  rw [ByPosition.ask]
  generalize read term = result at hread ⊢
  cases hread with
  | ok a => exact Agrees.pure a
  | refuse complaint =>
      refine ⟨?_, Read.answers_refuse h complaint⟩
      simp only [Read.refuse, h.placeOf_eq]
      rfl

theorem operand {read : Term → Read α} {i : Nat} (hi : elements[i]? = some term)
    (hread : (read term).Single term) (h : ∀ element ∈ elements, table.Recorded element) :
    Agrees table (ByPosition.operand table read elements i) (read term) :=
  Agrees.element_bind hi (Agrees.ask read hread (h term (List.mem_of_getElem? hi)))

theorem three {first : Checked α} {second : Checked β} {third : Checked γ} {a : Read α}
    {b : Read β} {c : Read γ} {make : α → β → γ → δ} {result : Read δ}
    (hfirst : Agrees table first a) (hsecond : Agrees table second b)
    (hthird : Agrees table third c)
    (hok : ∀ x y z, a = .ok x → b = .ok y → c = .ok z → result = .ok (make x y z))
    (herror : a.issues ++ b.issues ++ c.issues ≠ [] →
      result = .error (a.issues ++ b.issues ++ c.issues)) :
    Agrees table (ByPosition.three first second third make) result := by
  have hlocated : ∀ issue ∈ a.issues ++ b.issues ++ c.issues,
      issue.span ∈ table.entries.map Prod.snd := by
    intro issue hissue
    rcases List.mem_append.1 hissue with hissue | hissue
    · rcases List.mem_append.1 hissue with hissue | hissue
      · exact hfirst.answers.located issue hissue
      · exact hsecond.answers.located issue hissue
    · exact hthird.answers.located issue hissue
  by_cases hnone : a.issues ++ b.issues ++ c.issues = []
  · -- a result without issues is a value
    obtain ⟨x, rfl⟩ : ∃ x, a = .ok x := by
      cases a with
      | ok x => exact ⟨x, rfl⟩
      | error issues => exact absurd (by simp_all) (hfirst.answers.nonempty issues rfl)
    obtain ⟨y, rfl⟩ : ∃ y, b = .ok y := by
      cases b with
      | ok y => exact ⟨y, rfl⟩
      | error issues => exact absurd (by simp_all) (hsecond.answers.nonempty issues rfl)
    obtain ⟨z, rfl⟩ : ∃ z, c = .ok z := by
      cases c with
      | ok z => exact ⟨z, rfl⟩
      | error issues => exact absurd (by simp_all) (hthird.answers.nonempty issues rfl)
    rw [hok x y z rfl rfl rfl]
    refine ⟨?_, Read.answers_ok _⟩
    rw [ByPosition.three, ExceptT.run_mk, hfirst.run_eq, hsecond.run_eq, hthird.run_eq]
    rfl
  · rw [herror hnone]
    refine ⟨?_, hlocated, fun issues hissues => Except.error.inj hissues ▸ hnone⟩
    rw [ByPosition.three, ExceptT.run_mk, hfirst.run_eq, hsecond.run_eq, hthird.run_eq]
    cases a with
    | error issues => cases b <;> cases c <;> rfl
    | ok x =>
        cases b with
        | error issues => cases c <;> rfl
        | ok y =>
            cases c with
            | error issues => rfl
            | ok z => exact absurd rfl hnone

end Agrees

theorem Read.answers_all {results : List (Read α)}
    (h : ∀ result ∈ results, Read.Answers table result) : (Read.all results).Answers table := by
  unfold Read.all
  split
  · exact Read.answers_ok _
  · next hnot =>
    refine ⟨?_, ?_⟩
    · intro issue hissue
      obtain ⟨result, hresult, hissue⟩ := List.mem_flatMap.1 hissue
      exact (h result hresult).located issue hissue
    · intro issues hissues hnil
      rw [hnil, Except.error.injEq, List.flatMap_eq_nil_iff] at hissues
      apply hnot
      rw [List.all_eq_true]
      intro result hresult
      rw [hissues result hresult]
      rfl

theorem Agrees.all {checked : List (Checked α)} {results : List (Read α)}
    (h : List.Forall₂ (Agrees table) checked results) :
    Agrees table (ByPosition.all checked) (Read.all results) := by
  have hresults : (checked.mapM ExceptT.run : Except ReadingFault _) = .ok results ∧
      ∀ result ∈ results, Read.Answers table result := by
    induction h with
    | nil => exact ⟨rfl, by simp⟩
    | cons hfirst _ ih =>
        refine ⟨?_, List.forall_mem_cons.2 ⟨hfirst.answers, ih.2⟩⟩
        rw [List.mapM_cons, hfirst.run_eq, ih.1]
        rfl
  refine ⟨?_, Read.answers_all hresults.2⟩
  rw [ByPosition.all, ExceptT.run_mk, hresults.1]
  rfl

end

end RegisterColouring
