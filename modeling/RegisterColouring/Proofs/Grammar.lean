/-
**What reading yields.**

Whatever is read is well formed: each reader of a part of an instruction yields operands of the class
that the part takes, so instructions, functions and programs that are read are well formed.

Main definitions:

* `RegisterColouring.Read.Holds` — what is true of a value if it is read;
* `RegisterColouring.Function.IsParsed` — a function that some text is read as, or that comes with a
  program or a spill request.

Main results:

* `RegisterColouring.Instruction.holds_ofTerm`, `RegisterColouring.Function.holds_ofTerm`,
  `RegisterColouring.Program.holds_ofTerm` — **what is read is well formed**;
* `RegisterColouring.Function.IsParsed.wellFormed` — the same for functions, wherever they are read;
* `RegisterColouring.Program.nodup_names` — functions of a program have different names.
-/

import RegisterColouring.Proofs.WellFormed

set_option autoImplicit false

namespace RegisterColouring

/-! ### Values that are read -/

namespace Read

variable {α β : Type} {P : α → Prop} {Q : β → Prop}

/-- What is true of a value if it is read. -/
def Holds (P : α → Prop) (result : Read α) : Prop := ∀ a, result = .ok a → P a

theorem holds_ok {a : α} (h : P a) : Holds P (.ok a) := by
  intro b hb
  rwa [← Except.ok.inj hb]

theorem holds_error (issues : List Issue) : Holds P (.error issues) := by
  intro b hb
  simp at hb

theorem holds_refuse (term : Term) (complaint : Complaint) : Holds P (refuse term complaint) :=
  holds_error _

theorem Holds.bind {result : Read α} {next : α → Read β} (h : Holds P result)
    (hnext : ∀ a, P a → Holds Q (next a)) : Holds Q (result >>= next) := by
  cases result with
  | error issues => exact holds_error issues
  | ok a => exact hnext a (h a rfl)

theorem holds_all {results : List (Read α)} (h : ∀ result ∈ results, Holds P result) :
    Holds (fun list => ∀ a ∈ list, P a) (all results) := by
  unfold all
  split
  · refine holds_ok ?_
    intro a ha
    obtain ⟨result, hresult, hvalue⟩ := List.mem_filterMap.1 ha
    cases result with
    | error issues => simp [value?] at hvalue
    | ok b => exact h _ hresult a (by simpa [value?] using hvalue)
  · exact holds_error _

end Read

open Read (Holds holds_ok holds_error holds_refuse)

/-! ### Terms -/

theorem Item.isSource_of_ofSymbol? {text : String} {item : Item}
    (h : Item.ofSymbol? text = some item) : item.isSource = true := by
  have hidentifier : ∀ (make : String → Item) (cs : List Char),
      (∀ name : String, isIdentifier name.toList = true → (make name).isSource = true) →
      ofIdentifier? make cs = some item → item.isSource = true := by
    intro make cs hmake hcs
    unfold ofIdentifier? at hcs
    split at hcs
    · next hidentifier =>
      rw [← Option.some_inj.1 hcs]
      exact hmake _ (by simpa using hidentifier)
    · simp at hcs
  unfold ofSymbol? at h
  split at h
  · next hregister =>
    rw [← Option.some_inj.1 h]
    exact hregister
  · split at h
    · exact hidentifier var _ (fun _ hname => hname) h
    · exact hidentifier label _ (fun _ hname => hname) h
    · exact hidentifier function _ (fun _ hname => hname) h
    · obtain ⟨value, -, rfl⟩ := Option.map_eq_some_iff.1 h
      rfl

namespace Term

variable {term : Term}

theorem isSource_of_item? {item : Item} (h : term.item? = some item) : item.isSource = true := by
  obtain ⟨text, -, htext⟩ := Option.bind_eq_some_iff.1 h
  exact Item.isSource_of_ofSymbol? htext

theorem holds_itemWith (test : Item → Bool) (complaint : Complaint) (term : Term) :
    Holds (fun item => item.isSource = true ∧ test item = true)
      (term.itemWith test complaint) := by
  unfold itemWith
  split
  · next item hitem =>
    split
    · next htest => exact holds_ok ⟨isSource_of_item? hitem, htest⟩
    · exact holds_refuse _ _
  · exact holds_refuse _ _

theorem holds_labelName (term : Term) :
    Holds (fun name => isIdentifier name.toList = true) term.labelName := by
  unfold labelName
  split
  · next name hname => exact holds_ok (isSource_of_item? hname)
  · exact holds_refuse _ _

theorem holds_functionName (complaint : Complaint) (term : Term) :
    Holds (fun name => isIdentifier name.toList = true) (term.functionName complaint) := by
  unfold functionName
  split
  · next name hname => exact holds_ok (isSource_of_item? hname)
  · exact holds_refuse _ _

theorem holds_numberWith (test : Int64 → Bool) (complaint : Complaint) (term : Term) :
    Holds (fun value => test value = true) (term.numberWith test complaint) := by
  unfold numberWith
  split
  · split
    · next htest => exact holds_ok htest
    · exact holds_refuse _ _
  · exact holds_refuse _ _

theorem holds_sourceItem (term : Term) :
    Holds (fun item => item.isSource = true) (term.itemWith (fun _ => true) .source) :=
  fun item hitem => (holds_itemWith _ _ _ item hitem).1

theorem holds_valueItem (term : Term) : Holds (fun item => item.isOperand = true) term.valueItem :=
  fun item hitem => Item.isOperand_iff.2 (holds_itemWith _ _ _ item hitem)

theorem holds_writableItem (term : Term) :
    Holds (fun item => item.isAssignable = true) term.writableItem :=
  fun item hitem => Item.isAssignable_iff.2 (holds_itemWith _ _ _ item hitem)

theorem holds_memoryItem (base offset : Term) :
    Holds (fun item => item.isCell = true) (memoryItem base offset) := by
  refine (holds_itemWith _ _ base).bind ?_
  intro item hitem
  refine (holds_numberWith _ _ offset).bind ?_
  intro value hvalue
  exact holds_ok (Item.isCell_memory_iff.2 ⟨hitem, beq_iff_eq.1 hvalue⟩)

end Term

/-! ### Instructions -/

namespace Instruction

theorem holds_comparands {P : Instruction → Prop} {left op right : Term}
    {make : Item → Comparison → Item → Instruction}
    (h : ∀ l o r, l.isOperand = true → r.isOperand = true → P (make l o r)) :
    Holds P (comparands left op right make) := by
  unfold comparands
  split
  · next l o r hl ho hr =>
    exact holds_ok (h l o r (Term.holds_valueItem left l hl) (Term.holds_valueItem right r hr))
  · exact holds_error _

theorem holds_ofWord (whole : Term) (word : String) :
    Holds (fun instruction => instruction.isWellFormed = true) (ofWord whole word) := by
  have hstepped : ∀ reversed direction, Holds (fun instruction => instruction.isWellFormed = true)
      (ofWord.stepped whole reversed direction) := by
    intro reversed direction
    unfold ofWord.stepped
    split
    · next target htarget =>
      split
      · next hwritable =>
        exact holds_ok (Item.isAssignable_iff.2 ⟨Item.isSource_of_ofSymbol? htarget, hwritable⟩)
      · exact holds_refuse _ _
    · exact holds_refuse _ _
  unfold ofWord
  split
  · exact holds_ok rfl
  · split
    · exact hstepped _ _
    · exact hstepped _ _
    · exact holds_refuse _ _

theorem holds_ofGoto (whole : Term) (elements : List Term) :
    Holds (fun instruction => instruction.isWellFormed = true) (ofGoto whole elements) := by
  unfold ofGoto
  split
  · next target =>
    refine (Term.holds_labelName target).bind ?_
    intro name hname
    exact holds_ok hname
  · exact holds_refuse _ _

theorem holds_calleeOf (term : Term) :
    Holds (fun callee => callee.isWellFormed = true) (calleeOf term) := by
  unfold calleeOf
  split
  · exact holds_ok rfl
  · split
    · next name hname => exact holds_ok (Term.isSource_of_item? hname)
    · next item hfunction hitem =>
      split
      · next hwritable =>
        have hassignable := Item.isAssignable_iff.2 ⟨Term.isSource_of_item? hitem, hwritable⟩
        refine holds_ok ?_
        cases item with
        | function name => exact absurd rfl (hfunction name)
        | _ => exact hassignable
      · exact holds_refuse _ _
    · exact holds_refuse _ _

theorem holds_ofCall (whole : Term) (elements : List Term) :
    Holds (fun instruction => instruction.isWellFormed = true) (ofCall whole elements) := by
  unfold ofCall
  split
  · next callee arguments =>
    refine (Term.holds_numberWith _ _ arguments).bind ?_
    intro count hcount
    refine (holds_calleeOf callee).bind ?_
    intro target htarget
    exact holds_ok (by simpa [isWellFormed, htarget] using hcount)
  · exact holds_refuse _ _

theorem holds_ofJumpIf (whole : Term) (elements : List Term) :
    Holds (fun instruction => instruction.isWellFormed = true) (ofJumpIf whole elements) := by
  unfold ofJumpIf
  split
  · next left op right target =>
    refine (Term.holds_labelName target).bind ?_
    intro name hname
    refine holds_comparands ?_
    intro l o r hl hr
    simp [isWellFormed, hl, hr, hname]
  · exact holds_refuse _ _

theorem holds_ofMemory (whole : Term) (elements : List Term) :
    Holds (fun instruction => instruction.isWellFormed = true) (ofMemory whole elements) := by
  unfold ofMemory
  split
  · next base offset op source =>
    refine (Term.holds_memoryItem base offset).bind ?_
    intro target htarget
    split
    · refine (Term.holds_sourceItem source).bind ?_
      intro item hitem
      exact holds_ok (by simp [isWellFormed, htarget, hitem])
    · split
      · split
        · next hworks =>
          refine (Term.holds_valueItem source).bind ?_
          intro item hitem
          exact holds_ok (by simp [isWellFormed, hworks, htarget, hitem])
        · exact holds_refuse _ _
      · exact holds_refuse _ _
  · exact holds_refuse _ _

theorem holds_ofSources {target : Item} (htarget : target.isAssignable = true) (whole : Term)
    (elements : List Term) :
    Holds (fun instruction => instruction.isWellFormed = true)
      (ofSources whole target elements) := by
  unfold ofSources
  split
  · next source =>
    refine (Term.holds_sourceItem source).bind ?_
    intro item hitem
    exact holds_ok (by simp [isWellFormed, htarget, hitem])
  · next keyword offset =>
    split
    · refine (Term.holds_numberWith _ _ offset).bind ?_
      intro value _
      exact holds_ok htarget
    · exact holds_refuse _ _
  · next first second third =>
    split
    · refine (Term.holds_memoryItem second third).bind ?_
      intro item hitem
      exact holds_ok (by simp [isWellFormed, htarget, hitem])
    · refine holds_comparands ?_
      intro l o r hl hr
      simp [isWellFormed, htarget, hl, hr]
  · exact holds_refuse _ _

theorem holds_ofArith {target : Item} (htarget : target.isAssignable = true) (whole : Term)
    (op : ArithOp) (elements : List Term) :
    Holds (fun instruction => instruction.isWellFormed = true)
      (ofArith whole op target elements) := by
  unfold ofArith
  split
  · next source =>
    refine (Term.holds_valueItem source).bind ?_
    intro item hitem
    exact holds_ok (by simp [isWellFormed, htarget, hitem])
  · next keyword base offset =>
    split
    · next hworks =>
      refine (Term.holds_memoryItem base offset).bind ?_
      intro item hitem
      exact holds_ok (by simp [isWellFormed, hworks.2, htarget, hitem])
    · exact holds_refuse _ _
  · exact holds_refuse _ _

theorem holds_ofShift (whole target : Term) (op : ShiftOp) (elements : List Term) :
    Holds (fun instruction => instruction.isWellFormed = true)
      (ofShift whole target op elements) := by
  unfold ofShift
  split
  · next amount =>
    refine (Term.holds_writableItem target).bind ?_
    intro item hitem
    refine (Term.holds_itemWith _ _ amount).bind ?_
    intro source hsource
    exact holds_ok (by simp [isWellFormed, hitem, Item.isAmount_iff.2 hsource])
  · exact holds_refuse _ _

theorem holds_ofAddress (whole target : Term) (elements : List Term) :
    Holds (fun instruction => instruction.isWellFormed = true)
      (ofAddress whole target elements) := by
  unfold ofAddress
  split
  · next base index scale =>
    split
    · next t b i ht hb hi =>
      refine (Term.holds_numberWith _ _ scale).bind ?_
      intro value hvalue
      refine holds_ok ?_
      rw [isWellFormed, Term.holds_writableItem target t ht, Term.holds_writableItem base b hb,
        Term.holds_writableItem index i hi, isScale_iff.1 hvalue]
      rfl
    · exact holds_refuse _ _
  · exact holds_refuse _ _

theorem holds_ofOperator (whole target op : Term) (rest : List Term) :
    Holds (fun instruction => instruction.isWellFormed = true)
      (ofOperator whole target op rest) := by
  unfold ofOperator
  dsimp only
  split
  · refine (Term.holds_writableItem target).bind ?_
    intro item hitem
    exact holds_ofSources hitem whole rest
  · split
    · refine (Term.holds_writableItem target).bind ?_
      intro item hitem
      exact holds_ofArith hitem whole _ rest
    · split
      · exact holds_ofShift whole target _ rest
      · split
        · exact holds_ofAddress whole target rest
        · exact holds_refuse _ _

/-- **Instructions that are read are well formed.** -/
theorem holds_ofTerm (term : Term) :
    Holds (fun instruction => instruction.isWellFormed = true) (ofTerm term) := by
  unfold ofTerm
  split
  · split
    · next name hname => exact holds_ok (Term.isSource_of_item? hname)
    · exact holds_refuse _ _
  · next elements =>
    unfold ofElements
    split
    · exact holds_refuse _ _
    · exact holds_ofWord _ _
    · dsimp only
      split
      · exact holds_ofGoto _ _
      · split
        · exact holds_ofCall _ _
        · split
          · exact holds_ofJumpIf _ _
          · split
            · exact holds_ofMemory _ _
            · split
              · exact holds_refuse _ _
              · exact holds_ofOperator _ _ _ _

end Instruction

/-! ### Functions and programs -/

/-- **Functions that are read are well formed.** -/
theorem Function.holds_ofTerm (term : Term) :
    Holds Function.WellFormed (Function.ofTerm term) := by
  unfold Function.ofTerm
  split
  · next name arity body =>
    refine (Term.holds_functionName _ name).bind ?_
    intro name' hname
    refine (Term.holds_numberWith _ _ arity).bind ?_
    intro arity' harity
    have hbody : Holds (fun code => ∀ instruction ∈ code, instruction.isWellFormed = true)
        (Read.all (body.map Instruction.ofTerm)) := by
      refine Read.holds_all ?_
      intro result hresult
      obtain ⟨term, -, rfl⟩ := List.mem_map.1 hresult
      exact Instruction.holds_ofTerm term
    refine hbody.bind ?_
    intro code hcode
    exact holds_ok ⟨hname, of_decide_eq_true harity, rfl, hcode⟩
  · exact holds_refuse _ _

namespace Program

/-- Each function that is read comes from a term. -/
theorem ofTerm_of_mem_functionsOf {known : List Function} {terms : List Term} {function : Function}
    (h : .ok function ∈ functionsOf known terms) : ∃ term, Function.ofTerm term = .ok function := by
  induction terms generalizing known with
  | nil => simp [functionsOf] at h
  | cons term terms ih =>
      unfold functionsOf at h
      split at h
      · exact ih ((List.mem_cons.1 h).resolve_left (by simp))
      · next other hother =>
        split at h
        · exact ih ((List.mem_cons.1 h).resolve_left (by simp [Read.refuse]))
        · rcases List.mem_cons.1 h with h | h
          · exact ⟨term, by rw [hother, ← h]⟩
          · exact ih h

/-- The functions that are read have names different from each other and from those known. -/
theorem nodup_functionsOf (known : List Function) (terms : List Term)
    (hknown : (known.map Function.name).Nodup) :
    (known.map Function.name ++
      ((functionsOf known terms).filterMap Read.value?).map Function.name).Nodup := by
  induction terms generalizing known with
  | nil => simpa [functionsOf] using hknown
  | cons term terms ih =>
      unfold functionsOf
      split
      · exact ih known hknown
      · next function _ =>
        split
        · exact ih known hknown
        · next hnew =>
          have hnodup : ((known ++ [function]).map Function.name).Nodup := by
            rw [List.map_append, List.nodup_append]
            refine ⟨hknown, by simp, ?_⟩
            intro name hname other hother
            obtain ⟨earlier, hearlier, rfl⟩ := List.mem_map.1 hname
            obtain rfl : other = function.name := by simpa using hother
            intro heq
            exact hnew (List.any_eq_true.2 ⟨earlier, hearlier, by simpa using heq⟩)
          simpa using ih (known ++ [function]) hnodup

end Program

theorem Read.one_eq_ok {α : Type} {ofTerm : Term → Read α} {text : List Char} {a : α}
    (h : Read.one ofTerm text = .ok a) : ∃ term, ofTerm term = .ok a := by
  unfold Read.one at h
  split at h
  · next term _ => exact ⟨term, h⟩
  · simp at h

theorem Read.all_eq_ok {α : Type} {results : List (Read α)} {list : List α}
    (h : Read.all results = .ok list) : list = results.filterMap Read.value? := by
  unfold Read.all at h
  split at h
  · exact (Except.ok.inj h).symm
  · simp at h

namespace Program

/-- Functions that are read with a program are well formed. -/
theorem wellFormed_of_mem_functionsOf {known : List Function} {terms : List Term}
    {function : Function} (h : function ∈ (functionsOf known terms).filterMap Read.value?) :
    function.WellFormed := by
  obtain ⟨result, hresult, hvalue⟩ := List.mem_filterMap.1 h
  cases result with
  | error issues => simp [Read.value?] at hvalue
  | ok other =>
      obtain rfl : other = function := by simpa using hvalue
      obtain ⟨term, hterm⟩ := ofTerm_of_mem_functionsOf hresult
      exact Function.holds_ofTerm term other hterm

/-- **Programs that are read are well formed.** -/
theorem holds_ofTerm (term : Term) : Holds Program.WellFormed (Program.ofTerm term) := by
  unfold Program.ofTerm
  split
  · next head rest =>
    refine (Term.holds_functionName _ head).bind ?_
    intro entry hentry
    refine Holds.bind (fun list => Read.all_eq_ok) ?_
    rintro _ rfl
    dsimp only
    split
    · next hfind =>
      refine holds_ok ⟨hentry, fun function => wellFormed_of_mem_functionsOf, ?_, ?_⟩
      · simpa using nodup_functionsOf [] rest List.nodup_nil
      · obtain ⟨function, hmem, hname⟩ := List.find?_isSome.1 hfind
        exact List.mem_map.2 ⟨function, hmem, beq_iff_eq.1 hname⟩
    · exact holds_refuse _ _
  · exact holds_refuse _ _

theorem wellFormed_of_read {text : List Char} {program : Program}
    (h : Program.read text = .ok program) : program.WellFormed := by
  obtain ⟨term, hterm⟩ := Read.one_eq_ok h
  exact holds_ofTerm term program hterm

/-- **The functions of a program that is read have different names.** -/
theorem nodup_names {text : List Char} {program : Program}
    (h : Program.read text = .ok program) : (program.functions.map Function.name).Nodup :=
  (wellFormed_of_read h).distinct

end Program

/-- **A function that is read**, alone or with a program or a spill request. -/
def Function.IsParsed (function : Function) : Prop :=
  (∃ text, Function.read text = .ok function) ∨
    (∃ text program, Program.read text = .ok program ∧ function ∈ program.functions) ∨
    ∃ text request, SpillRequest.read text = .ok request ∧ request.function = function

namespace Function.IsParsed

variable {function : Function}

/-- **Functions that are read are well formed**, wherever they are read. -/
theorem wellFormed (h : function.IsParsed) : function.WellFormed := by
  rcases h with ⟨text, h⟩ | ⟨text, program, h, hmem⟩ | ⟨text, request, h, rfl⟩
  · obtain ⟨term, hterm⟩ := Read.one_eq_ok h
    exact Function.holds_ofTerm term function hterm
  · exact (Program.wellFormed_of_read h).functions function hmem
  · unfold SpillRequest.read at h
    split at h
    · simp at h
    · next first second third _ =>
      unfold SpillRequest.ofTerms at h
      split at h
      · next f v s hf hv hs =>
        rw [← Except.ok.inj h]
        exact Function.holds_ofTerm first f hf
      · simp at h
    · simp at h

/-- Functions that are read have proper instructions. -/
theorem proper (h : function.IsParsed) :
    ∀ instruction ∈ function.code, instruction.isProper = true :=
  fun instruction hmem => Instruction.isProper_of_isWellFormed (h.wellFormed.code instruction hmem)

/-- Functions that are read have the smallest frame that holds their cells. -/
theorem locals_eq (h : function.IsParsed) : function.locals = inferLocals function.code :=
  h.wellFormed.locals

theorem regular (h : function.IsParsed) :
    ∀ instruction ∈ function.code, instruction.isRegular = true :=
  fun instruction hmem => Instruction.isRegular_of_isProper (h.proper instruction hmem)

theorem unsigiled (h : function.IsParsed) {v : String} (hv : v ∈ function.vars) :
    Name.unsigiled v = v := by
  rw [Function.vars, List.mem_eraseDups] at hv
  obtain ⟨instruction, hmem, hv⟩ := List.mem_flatMap.1 hv
  exact Name.unsigiled_of_isIdentifier
    (Instruction.isIdentifier_of_mem_vars (h.proper instruction hmem) hv)

end Function.IsParsed

end RegisterColouring
