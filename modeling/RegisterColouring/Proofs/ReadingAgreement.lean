/-
**Reading by position and reading by shape.**

Each reader that asks for the elements of a list by position does so after it has looked at the
length of the list, or after a word has been found there.  This module goes through the readers,
from single terms to whole programs, and shows that what each one asks for is there: on terms that
are in the table, with all their parts, reading by position agrees with reading by shape.

Main results:

* `RegisterColouring.single_itemWith` and its siblings — a term that denotes an operand is accepted,
  or refused with one complaint;
* `RegisterColouring.Agrees.instruction`, `RegisterColouring.Agrees.function`,
  `RegisterColouring.Agrees.program`, `RegisterColouring.Agrees.spillRequest` — **the two ways of
  reading agree**.
-/

import RegisterColouring.Proofs.PositionalReading

set_option autoImplicit false

namespace RegisterColouring

/-! ### Readers of single terms -/

section

open Read (Single)

variable (term : Term)

/-- An operand is what the test accepts, or the term is refused. -/
theorem single_itemWith (test : Item → Bool) (complaint : Complaint) :
    (term.itemWith test complaint).Single term := by
  unfold Term.itemWith
  split
  · split
    · exact .ok _
    · exact .refuse _
  · exact .refuse _

theorem single_numberWith (test : Int64 → Bool) (complaint : Complaint) :
    (term.numberWith test complaint).Single term := by
  unfold Term.numberWith
  split
  · split
    · exact .ok _
    · exact .refuse _
  · exact .refuse _

theorem single_labelName : term.labelName.Single term := by
  unfold Term.labelName
  split
  · exact .ok _
  · exact .refuse _

theorem single_variableName : term.variableName.Single term := by
  unfold Term.variableName
  split
  · exact .ok _
  · exact .refuse _

theorem single_functionName (complaint : Complaint) :
    (term.functionName complaint).Single term := by
  unfold Term.functionName
  split
  · exact .ok _
  · exact .refuse _

theorem single_comparison : term.comparison.Single term := by
  unfold Term.comparison
  split
  · exact .ok _
  · exact .refuse _

/-- A callee is a service, a function, or what an address can be kept in. -/
theorem single_calleeOf : (Instruction.calleeOf term).Single term := by
  unfold Instruction.calleeOf
  split
  · exact .ok _
  · split
    · exact .ok _
    · split
      · exact .ok _
      · exact .refuse _
    · exact .refuse _

/-- A single word is refused as a whole, even if only what it steps is at fault. -/
theorem single_ofWord (word : String) : (Instruction.ofWord term word).Single term := by
  have hstepped : ∀ reversed direction,
      (Instruction.ofWord.stepped term reversed direction).Single term := by
    intro reversed direction
    unfold Instruction.ofWord.stepped
    split
    · split
      · exact .ok _
      · exact .refuse _
    · exact .refuse _
  unfold Instruction.ofWord
  split
  · exact .ok _
  · split
    · exact hstepped _ _
    · exact hstepped _ _
    · exact .refuse _

theorem single_ofTerm_symbol (span : Span) (value : String) :
    (Instruction.ofTerm (.symbol span value)).Single (.symbol span value) := by
  unfold Instruction.ofTerm
  split
  · split
    · exact .ok _
    · exact .refuse _
  · next h => cases h

end

/-! ### Symbols -/

/-- A list has no symbol, and the word that stands for none is not looked for. -/
theorem Term.getD_symbol?_eq_iff (term : Term) {word : String} (hword : word ≠ "") :
    term.symbol?.getD "" = word ↔ term.symbol? = some word := by
  cases term.symbol? with
  | none => simpa using hword.symm
  | some symbol => simp

theorem Term.bind_symbol? {α : Type} {read : String → Option α} (h : read "" = none)
    (term : Term) : term.symbol?.bind read = read (term.symbol?.getD "") := by
  cases term.symbol? with
  | none => exact h.symm
  | some symbol => rfl

/-! ### Instructions -/

theorem exists_of_length_eq_five {elements : List Term} (h : elements.length = 5) :
    ∃ a b c d e, elements = [a, b, c, d, e] :=
  match elements, h with
  | [a, b, c, d, e], _ => ⟨a, b, c, d, e, rfl⟩

namespace Agrees

variable {table : SpanTable} {whole : Term} {elements : List Term}

/-- A memory cell is read from the two places after its keyword, which are there.  Its base has been
accepted as one, so the cell can be built. -/
theorem memory {base offset : Term} {i : Nat} (hbase : elements[i + 1]? = some base)
    (hoffset : elements[i + 2]? = some offset)
    (h : ∀ element ∈ elements, table.Recorded element) :
    Agrees table (ByPosition.memory table elements i) (Term.memoryItem base offset) := by
  refine (Agrees.operand hbase (single_itemWith _ _ _) h).bind ?_
  intro item hitem
  refine (Agrees.operand hoffset (single_numberWith _ _ _) h).bind ?_
  intro value _
  have hisBase : item.isBase = true := by
    unfold Term.itemWith at hitem
    split at hitem
    · split at hitem
      · next htest => exact Except.ok.inj hitem ▸ htest
      · simp [Read.refuse] at hitem
    · simp [Read.refuse] at hitem
  rw [Item.cell, if_pos hisBase]
  exact Agrees.pure _

/-- The two ways agree on a comparison if they agree on its operands and its operator. -/
theorem compared {left op right : Term} {first third : Checked Item} {second : Checked Comparison}
    (hleft : Agrees table first left.valueItem) (hop : Agrees table second op.comparison)
    (hright : Agrees table third right.valueItem)
    (make : Item → Comparison → Item → Instruction) :
    Agrees table (ByPosition.three first second third make)
      (Instruction.comparands left op right make) := by
  refine Agrees.three hleft hop hright ?_ ?_
  · intro x y z hx hy hz
    rw [Instruction.comparands, hx, hy, hz]
  · intro hissues
    unfold Instruction.comparands
    split
    · next hx hy hz => simp [hx, hy, hz] at hissues
    · rfl

/-- A comparison is read from three places in a row. -/
theorem comparands {left op right : Term} {i : Nat} (hleft : elements[i]? = some left)
    (hop : elements[i + 1]? = some op) (hright : elements[i + 2]? = some right)
    (h : ∀ element ∈ elements, table.Recorded element)
    (make : Item → Comparison → Item → Instruction) :
    Agrees table (ByPosition.comparands table elements i make)
      (Instruction.comparands left op right make) :=
  Agrees.compared (Agrees.operand hleft (single_itemWith _ _ _) h)
    (Agrees.operand hop (single_comparison _) h)
    (Agrees.operand hright (single_itemWith _ _ _) h) make

section

variable (hwhole : table.Recorded whole) (h : ∀ element ∈ elements, table.Recorded element)

include hwhole h

theorem goto :
    Agrees table (ByPosition.goto table whole elements) (Instruction.ofGoto whole elements) := by
  unfold ByPosition.goto
  split
  · next hlength =>
    unfold Instruction.ofGoto
    split
    · simp at hlength
    · exact Agrees.refuse hwhole _
  · next hlength =>
    obtain ⟨keyword, target, rfl⟩ := List.length_eq_two.1 (not_not.1 hlength)
    exact (Agrees.operand rfl (single_labelName _) h).bind fun _ _ => Agrees.pure _

theorem call :
    Agrees table (ByPosition.call table whole elements) (Instruction.ofCall whole elements) := by
  unfold ByPosition.call
  split
  · next hlength =>
    unfold Instruction.ofCall
    split
    · simp at hlength
    · exact Agrees.refuse hwhole _
  · next hlength =>
    obtain ⟨keyword, callee, arguments, rfl⟩ := List.length_eq_three.1 (not_not.1 hlength)
    exact (Agrees.operand rfl (single_numberWith _ _ _) h).bind fun _ _ =>
      (Agrees.operand rfl (single_calleeOf _) h).bind fun _ _ => Agrees.pure _

/-- All five elements of a conditional jump are there.  The comparison is read before the target,
and its issues come after. -/
theorem jumpIf :
    Agrees table (ByPosition.jumpIf table whole elements)
      (Instruction.ofJumpIf whole elements) := by
  unfold ByPosition.jumpIf
  split
  · next hlength =>
    unfold Instruction.ofJumpIf
    split
    · simp at hlength
    · exact Agrees.refuse hwhole _
  · next hlength =>
    obtain ⟨keyword, left, op, right, target, rfl⟩ :=
      exists_of_length_eq_five (not_not.1 hlength)
    have hleft : Agrees table (ByPosition.operand table Term.valueItem _ 1) left.valueItem :=
      Agrees.operand rfl (single_itemWith _ _ _) h
    have hop : Agrees table (ByPosition.operand table Term.comparison _ 2) op.comparison :=
      Agrees.operand rfl (single_comparison _) h
    have hright : Agrees table (ByPosition.operand table Term.valueItem _ 3) right.valueItem :=
      Agrees.operand rfl (single_itemWith _ _ _) h
    refine Agrees.held_bind hleft (Agrees.held_bind hop (Agrees.held_bind hright ?_))
    refine (Agrees.operand rfl (single_labelName _) h).bind fun _ _ => ?_
    exact Agrees.compared hleft.released hop.released hright.released _

/-- All five elements of an instruction on memory are there, whichever of them is refused. -/
theorem memoryInstruction :
    Agrees table (ByPosition.memoryInstruction table whole elements)
      (Instruction.ofMemory whole elements) := by
  unfold ByPosition.memoryInstruction
  split
  · next hlength =>
    unfold Instruction.ofMemory
    split
    · simp at hlength
    · exact Agrees.refuse hwhole _
  · next hlength =>
    obtain ⟨keyword, base, offset, op, source, rfl⟩ :=
      exists_of_length_eq_five (not_not.1 hlength)
    refine (Agrees.memory rfl rfl h).bind fun target _ => Agrees.element_bind rfl ?_
    have hsource := h source (by simp)
    have hrefuse : Agrees table
        (ByPosition.element [keyword, base, offset, op, source] 3 >>= fun op =>
          ByPosition.refuse table op .unknownOperator)
        (Read.refuse op .unknownOperator : Read Instruction) :=
      Agrees.element_bind rfl (Agrees.refuse (h op (by simp)) _)
    simp only [Term.symbolAt_cons_succ, Term.symbolAt_cons_zero]
    rw [Term.bind_symbol? rfl op]
    have hiff := op.getD_symbol?_eq_iff (show "<-" ≠ "" by decide)
    by_cases harrow : op.symbol? = some "<-"
    · rw [if_pos harrow, if_pos (hiff.2 harrow)]
      exact (Agrees.ask _ (single_itemWith _ _ _) hsource).bind fun _ _ => Agrees.pure _
    · rw [if_neg harrow, if_neg (mt hiff.1 harrow)]
      cases ArithOp.ofText? (op.symbol?.getD "") with
      | none => exact hrefuse
      | some operator =>
          by_cases hworks : operator.worksOnMemory = true
          · simp only [if_pos hworks]
            refine Agrees.bind (Agrees.ask _ ?_ hsource) fun _ _ => Agrees.pure _
            exact single_itemWith _ _ _
          · simp only [if_neg hworks]
            exact hrefuse

end

section

variable {first second : Term} {rest : List Term} (hwhole : table.Recorded whole)
  (h : ∀ element ∈ first :: second :: rest, table.Recorded element)

include hwhole h

/-- An assignment asks for more elements only as far as its length has been looked at. -/
theorem assignment :
    Agrees table (ByPosition.assignment table whole (first :: second :: rest))
      (first.writableItem >>= fun target => Instruction.ofSources whole target rest) := by
  refine (Agrees.operand rfl (single_itemWith _ _ _) h).bind fun target _ => ?_
  rcases rest with _ | ⟨a, _ | ⟨b, _ | ⟨c, _ | ⟨d, rest⟩⟩⟩⟩
  · exact Agrees.refuse hwhole _
  · exact (Agrees.operand rfl (single_itemWith _ _ _) h).bind fun _ _ => Agrees.pure _
  · simp only [Term.symbolAt_cons_succ, Term.symbolAt_cons_zero]
    rw [Instruction.ofSources, if_neg (by simp)]
    have hiff := a.getD_symbol?_eq_iff (show "stack-arg" ≠ "" by decide)
    by_cases hkeyword : a.symbol? = some "stack-arg"
    · rw [if_pos ⟨rfl, hiff.2 hkeyword⟩, if_pos hkeyword]
      exact (Agrees.operand rfl (single_numberWith _ _ _) h).bind fun _ _ => Agrees.pure _
    · rw [if_neg fun hand => hkeyword (hiff.1 hand.2), if_neg (by simp), if_neg (by simp),
        if_neg hkeyword]
      exact Agrees.refuse hwhole _
  · simp only [Term.symbolAt_cons_succ, Term.symbolAt_cons_zero]
    rw [Instruction.ofSources, if_neg (by simp), if_neg (by simp)]
    have hiff := a.getD_symbol?_eq_iff (show "mem" ≠ "" by decide)
    by_cases hkeyword : a.symbol? = some "mem"
    · rw [if_pos ⟨rfl, hiff.2 hkeyword⟩, if_pos hkeyword]
      exact (Agrees.memory rfl rfl h).bind fun _ _ => Agrees.pure _
    · rw [if_neg fun hand => hkeyword (hiff.1 hand.2), if_pos (by rfl), if_neg hkeyword]
      exact Agrees.comparands rfl rfl rfl h _
  · rw [if_neg (by simp), if_neg (by simp), if_neg (by simp), if_neg (by simp)]
    exact Agrees.refuse hwhole _

theorem arith (op : ArithOp) :
    Agrees table (ByPosition.arith table whole op (first :: second :: rest))
      (first.writableItem >>= fun target => Instruction.ofArith whole op target rest) := by
  refine (Agrees.operand rfl (single_itemWith _ _ _) h).bind fun target _ => ?_
  rcases rest with _ | ⟨a, _ | ⟨b, _ | ⟨c, _ | ⟨d, rest⟩⟩⟩⟩
  · exact Agrees.refuse hwhole _
  · exact (Agrees.operand rfl (single_itemWith _ _ _) h).bind fun _ _ => Agrees.pure _
  · exact Agrees.refuse hwhole _
  · simp only [Term.symbolAt_cons_succ, Term.symbolAt_cons_zero]
    rw [Instruction.ofArith]
    have hiff := a.getD_symbol?_eq_iff (show "mem" ≠ "" by decide)
    by_cases hkeyword : a.symbol? = some "mem" ∧ op.worksOnMemory = true
    · rw [if_pos ⟨rfl, hiff.2 hkeyword.1, hkeyword.2⟩, if_pos hkeyword]
      exact (Agrees.memory rfl rfl h).bind fun _ _ => Agrees.pure _
    · rw [if_neg fun hand => hkeyword ⟨hiff.1 hand.2.1, hand.2.2⟩, if_pos (by simp),
        if_neg hkeyword]
      exact Agrees.refuse hwhole _
  · rw [if_neg (by simp), if_pos (by simp)]
    exact Agrees.refuse hwhole _

theorem shift (op : ShiftOp) :
    Agrees table (ByPosition.shift table whole op (first :: second :: rest))
      (Instruction.ofShift whole first op rest) := by
  unfold ByPosition.shift
  rcases rest with _ | ⟨amount, _ | ⟨b, rest⟩⟩
  · exact Agrees.refuse hwhole _
  · exact (Agrees.operand rfl (single_itemWith _ _ _) h).bind fun _ _ =>
      (Agrees.operand rfl (single_itemWith _ _ _) h).bind fun _ _ => Agrees.pure _
  · rw [if_pos (by simp)]
    exact Agrees.refuse hwhole _

/-- The three places of an address computation share one complaint, about the whole. -/
theorem address :
    Agrees table (ByPosition.address table whole (first :: second :: rest))
      (Instruction.ofAddress whole first rest) := by
  unfold ByPosition.address
  split
  · next hlength =>
    unfold Instruction.ofAddress
    split
    · simp at hlength
    · exact Agrees.refuse hwhole _
  · next hlength =>
    obtain ⟨base, index, scale, rfl⟩ := List.length_eq_three.1 (by simpa using hlength)
    refine Agrees.element_bind rfl (Agrees.element_bind rfl (Agrees.element_bind rfl ?_))
    rw [Instruction.ofAddress]
    rcases first.writableItem with _ | target
    · exact Agrees.refuse hwhole _
    rcases base.writableItem with _ | base
    · exact Agrees.refuse hwhole _
    rcases index.writableItem with _ | index
    · exact Agrees.refuse hwhole _
    exact (Agrees.operand rfl (single_numberWith _ _ _) h).bind fun _ _ => Agrees.pure _

/-- The word in second place decides who reads the instruction. -/
theorem operator :
    Agrees table (ByPosition.operator table whole (first :: second :: rest))
      (Instruction.ofOperator whole first second rest) := by
  rw [ByPosition.operator, Instruction.ofOperator]
  simp only [Term.symbolAt_cons_succ, Term.symbolAt_cons_zero]
  by_cases harrow : second.symbol?.getD "" = "<-"
  · rw [if_pos harrow, if_pos harrow]
    exact Agrees.assignment hwhole h
  rw [if_neg harrow, if_neg harrow]
  cases ArithOp.ofText? (second.symbol?.getD "") with
  | some op => exact Agrees.arith hwhole h op
  | none =>
      cases ShiftOp.ofText? (second.symbol?.getD "") with
      | some op => exact Agrees.shift hwhole h op
      | none =>
          by_cases haddress : second.symbol?.getD "" = "@"
          · simp only [if_pos haddress]
            exact Agrees.address hwhole h
          · simp only [if_neg haddress]
            exact Agrees.element_bind rfl (Agrees.refuse (h second (by simp)) _)

end

/-- The first word decides, or else there are at least three elements, one of them the operator. -/
theorem parenthesised (hwhole : table.Recorded whole)
    (h : ∀ element ∈ elements, table.Recorded element) :
    Agrees table (ByPosition.parenthesised table whole elements)
      (Instruction.ofElements whole elements) := by
  unfold ByPosition.parenthesised Instruction.ofElements
  rcases elements with _ | ⟨first, _ | ⟨second, rest⟩⟩
  · exact Agrees.refuse hwhole _
  · exact Agrees.ask (Instruction.ofWord · (Term.symbolAt [first] 0)) (single_ofWord _ _) hwhole
  rw [if_neg (by simp), if_neg (by simp)]
  simp only [Term.symbolAt_cons_zero]
  by_cases hgoto : first.symbol?.getD "" = "goto"
  · rw [if_pos hgoto, if_pos hgoto]
    exact Agrees.goto hwhole h
  rw [if_neg hgoto, if_neg hgoto]
  by_cases hcall : first.symbol?.getD "" = "call"
  · rw [if_pos hcall, if_pos hcall]
    exact Agrees.call hwhole h
  rw [if_neg hcall, if_neg hcall]
  by_cases hjump : first.symbol?.getD "" = "cjump"
  · rw [if_pos hjump, if_pos hjump]
    exact Agrees.jumpIf hwhole h
  rw [if_neg hjump, if_neg hjump]
  by_cases hmem : first.symbol?.getD "" = "mem"
  · rw [if_pos hmem, if_pos hmem]
    exact Agrees.memoryInstruction hwhole h
  rw [if_neg hmem, if_neg hmem]
  by_cases hrest : rest = []
  · subst hrest
    exact Agrees.refuse hwhole _
  have hpos := List.length_pos_of_ne_nil hrest
  rw [if_neg (by simp only [List.length_cons]; omega), if_neg (by simpa using hrest)]
  exact Agrees.operator hwhole h

/-- **The two ways of reading an instruction agree**, on a term that is in the table with its
parts. -/
theorem instruction {term : Term} (h : table.Recorded term) :
    Agrees table (ByPosition.instruction table term) (Instruction.ofTerm term) := by
  cases h with
  | symbol hplace => exact Agrees.ask _ (single_ofTerm_symbol _ _) (.symbol hplace)
  | list hplace helements => exact Agrees.parenthesised (.list hplace helements) helements

/-! ### Functions, programs and spill requests -/

/-- **The two ways of reading a function agree.** -/
theorem function {term : Term} (h : table.Recorded term) :
    Agrees table (ByPosition.function table term) (Function.ofTerm term) := by
  cases h with
  | symbol hplace => exact Agrees.refuse (.symbol hplace) _
  | @list span elements hplace helements =>
      rcases elements with _ | ⟨name, _ | ⟨arity, body⟩⟩
      · exact Agrees.refuse (.list hplace helements) _
      · exact Agrees.refuse (.list hplace helements) _
      · rw [ByPosition.function, if_neg (by simp)]
        refine (Agrees.operand rfl (single_functionName _ _) helements).bind fun _ _ => ?_
        refine (Agrees.operand rfl (single_numberWith _ _ _) helements).bind fun _ _ => ?_
        refine Agrees.elementsFrom_bind (by simp) ?_
        refine (Agrees.all ?_).bind fun _ _ => Agrees.pure _
        rw [List.drop_succ_cons, List.drop_succ_cons, List.drop_zero, List.forall₂_map_left_iff,
          List.forall₂_map_right_iff, List.forall₂_same]
        intro term hterm
        exact Agrees.instruction (helements term (by simp [hterm]))

/-- Functions are read one after the other, and each is compared with those read before it. -/
theorem functionsOf {terms : List Term} (known : List Function)
    (h : ∀ term ∈ terms, table.Recorded term) :
    ByPosition.functionsOf table known terms = .ok (Program.functionsOf known terms) ∧
      ∀ result ∈ Program.functionsOf known terms, Read.Answers table result := by
  induction terms generalizing known with
  | nil => exact ⟨rfl, by simp [Program.functionsOf]⟩
  | cons term terms ih =>
      have hterm := h term (List.mem_cons_self ..)
      have hterms := fun other hother => h other (List.mem_cons_of_mem term hother)
      have hfunction := Agrees.function hterm
      have hrefuse : Agrees table (ByPosition.refuse table term .duplicateFunction)
          (Read.refuse term .duplicateFunction : Read Function) := Agrees.refuse hterm _
      rw [ByPosition.functionsOf, Program.functionsOf, hfunction.run_eq]
      cases hread : Function.ofTerm term with
      | error issues =>
          obtain ⟨hrest, hanswers⟩ := ih known hterms
          simp only [Bind.bind, Except.bind, hrest, true_and]
          exact List.forall_mem_cons.2 ⟨hread ▸ hfunction.answers, hanswers⟩
      | ok function =>
          by_cases hknown : known.any (·.name == function.name) = true
          · obtain ⟨hrest, hanswers⟩ := ih known hterms
            simp only [Bind.bind, Except.bind, if_pos hknown, hrefuse.run_eq, hrest, true_and]
            exact List.forall_mem_cons.2 ⟨hrefuse.answers, hanswers⟩
          · obtain ⟨hrest, hanswers⟩ := ih (known ++ [function]) hterms
            simp only [Bind.bind, Except.bind, if_neg hknown, hrest, true_and]
            exact List.forall_mem_cons.2 ⟨Read.answers_ok function, hanswers⟩

/-- **The two ways of reading a program agree.** -/
theorem program {term : Term} (h : table.Recorded term) :
    Agrees table (ByPosition.program table term) (Program.ofTerm term) := by
  cases h with
  | symbol hplace => exact Agrees.refuse (.symbol hplace) _
  | @list span elements hplace helements =>
      rcases elements with _ | ⟨head, rest⟩
      · exact Agrees.refuse (.list hplace helements) _
      · have hhead := helements head (List.mem_cons_self ..)
        obtain ⟨hfunctions, hanswers⟩ := Agrees.functionsOf [] fun term hterm =>
          helements term (List.mem_cons_of_mem head hterm)
        rw [ByPosition.program, if_neg (by simp)]
        refine Agrees.element_bind rfl ?_
        refine (Agrees.ask _ (single_functionName _ _) hhead).bind fun entry _ => ?_
        refine Agrees.elementsFrom_bind (by simp) ?_
        refine Agrees.bind ⟨?_, Read.answers_all hanswers⟩ fun functions _ => ?_
        · rw [ExceptT.run_mk, List.drop_succ_cons, List.drop_zero, hfunctions]
          rfl
        · by_cases hentry : (Program.find? ⟨entry, functions⟩ entry).isSome = true
          · simp only [if_pos hentry]
            exact Agrees.pure _
          · simp only [if_neg hentry]
            exact Agrees.refuse hhead _

/-- **The two ways of reading a spill request agree.** -/
theorem spillRequest {function victim stem : Term} (hfunction : table.Recorded function)
    (hvictim : table.Recorded victim) (hstem : table.Recorded stem) :
    Agrees table (ByPosition.spillRequest table [function, victim, stem])
      (SpillRequest.ofTerms function victim stem) := by
  refine Agrees.three (Agrees.element_bind rfl (Agrees.function hfunction))
    (Agrees.element_bind rfl (Agrees.ask _ (single_variableName _) hvictim))
    (Agrees.element_bind rfl (Agrees.ask _ (single_variableName _) hstem)) ?_ ?_
  · intro x y z hx hy hz
    rw [SpillRequest.ofTerms, hx, hy, hz]
  · intro hissues
    unfold SpillRequest.ofTerms
    split
    · next hx hy hz => simp [hx, hy, hz] at hissues
    · rfl

end Agrees

end RegisterColouring
