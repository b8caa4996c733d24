/-
**The first culprit.**

Before it computes anything, the analysis of a function goes through the code three times: for the
labels, for the jumps, and for the names that are read and written.  Each time it stops at the first
position where something is wrong, and it goes on to the next only if nothing is.  So what it
reports is the first culprit of the first kind that there is, and a function without culprits is
analysed.

The last of the three compares what instructions read and write with names that were collected from
their operands.  A variable that is read or written is among the operands, if need be at the bottom
of an address, so what is unknown there is always the name of a register that values cannot be
assigned to.  A function that is read has no such register.

Main definitions:

* `RegisterColouring.FirstAt` — what is found at a position and nowhere before;
* `RegisterColouring.Function.Repeats`, `RegisterColouring.Function.Strays`,
  `RegisterColouring.Function.Foreign` — the three kinds of culprits;
* `RegisterColouring.Function.Culprit` — **the error that the analysis should report**.

Main results:

* `RegisterColouring.Function.labelsFrom_eq_error_iff`,
  `RegisterColouring.Function.successorsFrom_eq_error_iff`,
  `RegisterColouring.Liveness.pointsFrom_eq_error_iff` — where each pass stops;
* `RegisterColouring.Function.Foreign.register` — what is unknown is a register;
* `RegisterColouring.Liveness.analysis_rejects_first_culprit` — **the analysis rejects exactly the
  functions with a culprit, and names the first**.
-/

import RegisterColouring.Proofs.Grammar
import RegisterColouring.Proofs.LiveNames

set_option autoImplicit false

namespace RegisterColouring

/-! ### First positions -/

/-- **What is found at a position and nowhere before.** -/
def FirstAt {α : Type} (found : Nat → α → Prop) (i : Nat) (a : α) : Prop :=
  found i a ∧ ∀ j < i, ∀ b, ¬ found j b

namespace FirstAt

variable {α : Type} {found report : Nat → α → Prop} {i : Nat} {a : α}

/-- What is found anywhere is found somewhere first. -/
theorem exists_of_found (h : found i a) : ∃ j b, FirstAt found j b := by
  induction i using Nat.strongRecOn generalizing a with
  | ind i ih =>
      by_cases hearlier : ∃ j < i, ∃ b, found j b
      · obtain ⟨j, hj, b, hb⟩ := hearlier
        exact ih j hj hb
      · exact ⟨i, a, h, fun j hj b hb => hearlier ⟨j, hj, b, hb⟩⟩

/-- A pass that finds something at the start stops there. -/
theorem exists_iff_of_zero (ha : found 0 a) (hunique : ∀ b, found 0 b → b = a) :
    (∃ i b, report i b ∧ FirstAt found i b) ↔ report 0 a := by
  constructor
  · rintro ⟨i, b, hreport, hb, hfirst⟩
    cases i with
    | zero => rwa [← hunique b hb]
    | succ i => exact absurd ha (hfirst 0 (Nat.succ_pos i) a)
  · intro hreport
    exact ⟨0, a, hreport, ha, fun j hj => absurd hj (Nat.not_lt_zero j)⟩

/-- A pass that finds nothing at the start goes on. -/
theorem exists_iff_of_succ (hnone : ∀ b, ¬ found 0 b) :
    (∃ i b, report i b ∧ FirstAt found i b) ↔
      ∃ i b, report (i + 1) b ∧ FirstAt (fun i => found (i + 1)) i b := by
  constructor
  · rintro ⟨i, b, hreport, hb, hfirst⟩
    cases i with
    | zero => exact absurd hb (hnone b)
    | succ i =>
        exact ⟨i, b, hreport, hb, fun j hj => hfirst (j + 1) (Nat.succ_lt_succ hj)⟩
  · rintro ⟨i, b, hreport, hb, hfirst⟩
    refine ⟨i + 1, b, hreport, hb, fun j hj => ?_⟩
    cases j with
    | zero => exact hnone
    | succ j => exact hfirst j (Nat.lt_of_succ_lt_succ hj)

section Result

variable {ε β : Type} {result : Except ε β} {make : Nat → α → ε}
  (h : ∀ e, result = .error e ↔ ∃ i a, e = make i a ∧ FirstAt found i a)

include h

/-- A pass that does not stop has found nothing. -/
theorem not_found_of_ok {b : β} (hok : result = .ok b) : ∀ i a, ¬ found i a := by
  intro i a ha
  obtain ⟨j, c, hfirst⟩ := exists_of_found ha
  have herror := (h _).2 ⟨j, c, rfl, hfirst⟩
  rw [hok] at herror
  simp at herror

/-- A pass that finds nothing does not stop. -/
theorem exists_ok_of_not_found (hnone : ∀ i a, ¬ found i a) : ∃ b, result = .ok b := by
  cases hresult : result with
  | ok b => exact ⟨b, rfl⟩
  | error e =>
      obtain ⟨i, a, -, ha, -⟩ := (h e).1 hresult
      exact absurd ha (hnone i a)

end Result

end FirstAt

/-- The instruction at a position has something about it. -/
def At {α : Type} (code : List Instruction) (about : Instruction → α → Prop) (i : Nat) (a : α) :
    Prop :=
  ∃ instruction, code[i]? = some instruction ∧ about instruction a

section At

variable {α : Type} {about : Instruction → α → Prop} {instruction : Instruction}
  {code : List Instruction} {i : Nat} {a : α}

@[simp] theorem not_at_nil : ¬ At [] about i a := by
  rintro ⟨instruction, hi, -⟩
  simp at hi

@[simp] theorem at_cons_zero : At (instruction :: code) about 0 a ↔ about instruction a := by
  simp [At]

theorem at_cons_succ : (fun i => At (instruction :: code) about (i + 1)) = At code about := by
  funext i a
  simp [At]

end At

namespace Function

/-! ### Labels -/

/-- A label at a position that is known or stands at an earlier one. -/
def RepeatsAfter (known : List String) (code : List Instruction) (i : Nat) (label : String) :
    Prop :=
  code[i]? = some (.label label) ∧ (label ∈ known ∨ ∃ j < i, code[j]? = some (.label label))

section RepeatsAfter

variable {known : List String} {code : List Instruction} {instruction : Instruction}
  {label : String} {i : Nat}

theorem repeatsAfter_cons_zero :
    RepeatsAfter known (instruction :: code) 0 label ↔
      instruction = .label label ∧ label ∈ known := by
  simp [RepeatsAfter]

/-- The labels that are known grow by those that are passed. -/
theorem repeatsAfter_cons_succ :
    (fun i => RepeatsAfter known (instruction :: code) (i + 1)) =
      RepeatsAfter (known ++ instruction.label?.toList) code := by
  funext i label
  simp only [RepeatsAfter, List.getElem?_cons_succ, List.mem_append, Option.mem_toList,
    Instruction.label?_eq_some_iff, or_assoc, eq_iff_iff]
  refine and_congr_right fun _ => or_congr_right ?_
  constructor
  · rintro ⟨j, hj, hlabel⟩
    cases j with
    | zero => exact Or.inl (Option.some_inj.1 hlabel)
    | succ j => exact Or.inr ⟨j, Nat.lt_of_succ_lt_succ hj, hlabel⟩
  · rintro (rfl | ⟨j, hj, hlabel⟩)
    · exact ⟨0, Nat.succ_pos i, rfl⟩
    · exact ⟨j + 1, Nat.succ_lt_succ hj, hlabel⟩

end RepeatsAfter

theorem isSome_lookup_iff {known : List (String × Nat)} {label : String} :
    (known.lookup label).isSome = true ↔ label ∈ known.map Prod.fst := by
  rw [List.lookup_isSome_iff, List.mem_map]
  constructor
  · rintro ⟨entry, hentry, heq⟩
    exact ⟨entry, hentry, (eq_of_beq heq).symm⟩
  · rintro ⟨entry, hentry, rfl⟩
    exact ⟨entry, hentry, by simp⟩

/-- **Where the pass for labels stops.** -/
theorem labelsFrom_eq_error_iff {name : String} {known : List (String × Nat)} {index : Nat}
    {code : List Instruction} {e : AnalysisError} :
    labelsFrom name known index code = .error e ↔
      ∃ i label, e = .duplicateLabel name (index + i) label ∧
        FirstAt (RepeatsAfter (known.map Prod.fst) code) i label := by
  fun_induction labelsFrom name known index code with
  | case1 known index => simp [FirstAt, RepeatsAfter]
  | case2 known index label code hknown =>
      have hfound : RepeatsAfter (known.map Prod.fst) (.label label :: code) 0 label :=
        repeatsAfter_cons_zero.2 ⟨rfl, isSome_lookup_iff.1 hknown⟩
      rw [FirstAt.exists_iff_of_zero hfound fun other hother => ?_]
      · simp [eq_comm]
      · simpa [eq_comm] using (repeatsAfter_cons_zero.1 hother).1
  | case3 known index label code hknown ih =>
      rw [FirstAt.exists_iff_of_succ fun other hother => ?_, ih, repeatsAfter_cons_succ]
      · simp [Instruction.label?, Nat.add_assoc, Nat.add_comm 1]
      · obtain ⟨hother, hmem⟩ := repeatsAfter_cons_zero.1 hother
        cases hother
        exact hknown (isSome_lookup_iff.2 hmem)
  | case4 known index instruction code hlabel ih =>
      have hnone : instruction.label? = none := by
        cases instruction with
        | label name => exact absurd rfl (hlabel name)
        | _ => rfl
      rw [FirstAt.exists_iff_of_succ fun other hother => ?_, ih, repeatsAfter_cons_succ, hnone]
      · simp [Nat.add_assoc, Nat.add_comm 1]
      · exact hlabel other (repeatsAfter_cons_zero.1 hother).1

/-! ### Jumps -/

theorem successorsOf_eq_error_iff {labels : List (String × Nat)} {length index : Nat}
    {instruction : Instruction} {label : String} :
    successorsOf labels length index instruction = .error label ↔
      instruction.jump? = some label ∧ labels.lookup label = none := by
  cases instruction with
  | goto target =>
      simp only [successorsOf, Instruction.jump?]
      cases hlookup : labels.lookup target <;> grind
  | jumpIf op left right target =>
      simp only [successorsOf, Instruction.jump?]
      cases hlookup : labels.lookup target <;> grind
  | _ => simp [successorsOf, Instruction.jump?]

/-- **Where the pass for jumps stops.** -/
theorem successorsFrom_eq_error_iff {name : String} {labels : List (String × Nat)}
    {length index : Nat} {code : List Instruction} {e : AnalysisError} :
    successorsFrom name labels length index code = .error e ↔
      ∃ i label, e = .unknownLabel name (index + i) label ∧
        FirstAt (At code fun instruction label =>
          instruction.jump? = some label ∧ labels.lookup label = none) i label := by
  induction code generalizing index with
  | nil => simp [successorsFrom, FirstAt]
  | cons instruction code ih =>
      rw [successorsFrom]
      cases hhere : successorsOf labels length index instruction with
      | error label =>
          have hfound := successorsOf_eq_error_iff.1 hhere
          rw [FirstAt.exists_iff_of_zero (at_cons_zero.2 hfound) fun other hother => ?_]
          · simp [eq_comm]
          · have hjump := (at_cons_zero.1 hother).1
            rw [hfound.1, Option.some_inj] at hjump
            exact hjump.symm
      | ok here =>
          rw [FirstAt.exists_iff_of_succ fun other hother => ?_, at_cons_succ]
          · have hrest := @ih (index + 1)
            cases hsuccessors : successorsFrom name labels length (index + 1) code <;>
              simp [hsuccessors, Nat.add_assoc, Nat.add_comm 1] at hrest ⊢ <;> exact hrest
          · rw [successorsOf_eq_error_iff.2 (at_cons_zero.1 hother)] at hhere
            simp at hhere

end Function

/-! ### Names -/

namespace Vocabulary

variable {vocabulary : Vocabulary} {names : List Name} {unknown : Name}

theorem numbers_eq_error_iff :
    vocabulary.numbers names = .error unknown ↔
      names.find? (· ∉ vocabulary.names) = some unknown := by
  induction names with
  | nil => simp [numbers]
  | cons name names ih =>
      rw [numbers]
      cases hindex : vocabulary.index? name with
      | none =>
          have hname := index?_eq_none_iff.1 hindex
          rw [List.find?_cons_of_pos (by simpa using hname)]
          simp
      | some i =>
          have hname := mem_of_index? hindex
          rw [List.find?_cons_of_neg (by simpa using hname), ← ih]
          cases vocabulary.numbers names <;> simp

/-- The first of some names that is unknown. -/
theorem set_eq_error_iff :
    vocabulary.set names = .error unknown ↔
      names.find? (· ∉ vocabulary.names) = some unknown := by
  rw [← numbers_eq_error_iff, Vocabulary.set]
  cases vocabulary.numbers names <;> simp

theorem find?_eq_none_of_set {set : IndexSet} (h : vocabulary.set names = .ok set) :
    names.find? (· ∉ vocabulary.names) = none := by
  rw [List.find?_eq_none]
  intro name hname
  simpa using set_ok_iff.1 ⟨set, h⟩ name hname

end Vocabulary

/-- The first name outside a vocabulary that an instruction reads, or else overwrites. -/
def Instruction.unknown? (vocabulary : Vocabulary) (instruction : Instruction) : Option Name :=
  (instruction.gen ++ instruction.kill).find? (· ∉ vocabulary.names)

namespace Liveness

/-- **Where the pass for names stops.** -/
theorem pointsFrom_eq_error_iff {name : String} {vocabulary : Vocabulary} {index : Nat}
    {code : List Instruction} {successors : List (List Nat)} {e : AnalysisError}
    (hlength : successors.length = code.length) :
    pointsFrom name vocabulary index code successors = .error e ↔
      ∃ i unknown, e = .unknownRegister name (index + i) unknown ∧
        FirstAt (At code fun instruction unknown =>
          instruction.unknown? vocabulary = some unknown) i unknown := by
  induction code generalizing index successors with
  | nil => simp [pointsFrom, FirstAt]
  | cons instruction code ih =>
      obtain ⟨here, rest, rfl⟩ := List.exists_cons_of_length_eq_add_one hlength
      -- the pass stops here, or goes on with the instructions after this one
      have hstop : ∀ register, instruction.unknown? vocabulary = some register →
          ((.error (.unknownRegister name index register) : Except _ (List Point)) = .error e ↔
            ∃ i unknown, e = .unknownRegister name (index + i) unknown ∧
              FirstAt (At (instruction :: code) fun instruction unknown =>
                instruction.unknown? vocabulary = some unknown) i unknown) := by
        intro register hregister
        rw [FirstAt.exists_iff_of_zero (at_cons_zero.2 hregister) fun other hother => ?_]
        · simp [eq_comm]
        · rw [at_cons_zero, hregister, Option.some_inj] at hother
          exact hother.symm
      have happend : instruction.unknown? vocabulary =
          (instruction.gen.find? (· ∉ vocabulary.names)).or
            (instruction.kill.find? (· ∉ vocabulary.names)) := List.find?_append
      rw [pointsFrom]
      cases hgen : vocabulary.set instruction.gen with
      | error register =>
          refine hstop register ?_
          rw [happend, Vocabulary.set_eq_error_iff.1 hgen, Option.some_or]
      | ok gen =>
          rw [Vocabulary.find?_eq_none_of_set hgen, Option.none_or] at happend
          cases hkill : vocabulary.set instruction.kill with
          | error register =>
              exact hstop register (happend.trans (Vocabulary.set_eq_error_iff.1 hkill))
          | ok kill =>
              rw [Vocabulary.find?_eq_none_of_set hkill] at happend
              rw [FirstAt.exists_iff_of_succ fun other hother => ?_, at_cons_succ]
              · have hrest := @ih (index + 1) rest (Nat.succ_inj.1 hlength)
                cases hpoints : pointsFrom name vocabulary (index + 1) code rest <;>
                  simp [hpoints, Nat.add_assoc, Nat.add_comm 1] at hrest ⊢ <;> exact hrest
              · rw [at_cons_zero, happend] at hother
                simp at hother

end Liveness

/-! ### Culprits -/

namespace Function

/-- **A label that is defined again** at a position. -/
def Repeats (function : Function) (i : Nat) (label : String) : Prop :=
  function.code[i]? = some (.label label) ∧ ∃ j < i, function.code[j]? = some (.label label)

/-- **A jump to a label that is not defined** anywhere in the function. -/
def Strays (function : Function) : Nat → String → Prop :=
  At function.code fun instruction label =>
    instruction.jump? = some label ∧ .label label ∉ function.code

/-- **A name outside the vocabulary**: the first one of an instruction, what is read before what is
overwritten. -/
def Foreign (function : Function) : Nat → Name → Prop :=
  At function.code fun instruction name =>
    instruction.unknown? (Vocabulary.ofFunction function) = some name

/-- **The error that the analysis should report**: the first culprit of the first kind that there
is. -/
inductive Culprit (function : Function) : AnalysisError → Prop
  | repeats {i : Nat} {label : String} (h : FirstAt function.Repeats i label) :
      Culprit function (.duplicateLabel function.name i label)
  | strays {i : Nat} {label : String} (hlabels : ∀ i label, ¬ function.Repeats i label)
      (h : FirstAt function.Strays i label) :
      Culprit function (.unknownLabel function.name i label)
  | foreign {i : Nat} {name : Name} (hlabels : ∀ i label, ¬ function.Repeats i label)
      (hjumps : ∀ i label, ¬ function.Strays i label) (h : FirstAt function.Foreign i name) :
      Culprit function (.unknownRegister function.name i name)

variable {function : Function} {i : Nat} {name : Name}

/-- **What is unknown is a register**: an operand, or what the address of one starts from, that is
neither general purpose nor the stack pointer. -/
theorem Foreign.register (h : function.Foreign i name) :
    At function.code (fun instruction name => ∃ item ∈ instruction.operands,
      item.register? = some name ∧ name ≠ Register.stackPointer ∧
        name ∉ Register.generalPurpose) i name := by
  obtain ⟨instruction, hi, hunknown⟩ := h
  have hmem := List.mem_of_getElem? hi
  have hname : name ∈ instruction.gen ∨ name ∈ instruction.kill :=
    List.mem_append.1 (List.mem_of_find?_eq_some hunknown)
  have houtside : name ∉ (Vocabulary.ofFunction function).names := by
    simpa using List.find?_some hunknown
  rw [Vocabulary.ofFunction, Vocabulary.mem_names_ofVariables, not_or] at houtside
  obtain ⟨hregister, hvar⟩ := houtside
  obtain ⟨item, hitem, hitemName⟩ :=
    (Instruction.operand_of_mem_gen_or_kill hname).resolve_left hregister
  refine ⟨instruction, hi, item, hitem, ?_⟩
  rcases Item.register_or_var_of_name? hitemName with ⟨hitemRegister, hstack⟩ | ⟨v, hv, rfl⟩
  · exact ⟨hitemRegister, hstack, hregister⟩
  · exact absurd ⟨v, mem_vars.2 ⟨instruction, hmem, List.mem_filterMap.2 ⟨item, hitem, hv⟩⟩, rfl⟩
      hvar

/-- A function that is read has no such register. -/
theorem IsParsed.not_foreign (h : function.IsParsed) : ¬ function.Foreign i name := by
  intro hforeign
  obtain ⟨instruction, hi, item, hitem, hregister, hstack, hgeneral⟩ := hforeign.register
  have hregular := Instruction.isRegular_iff.1 (h.regular instruction (List.mem_of_getElem? hi))
  have hexists := Item.isRegister_of_isRegular (hregular item hitem) hregister
  exact hgeneral (Register.isGeneralPurpose_iff.1
    (Register.isGeneralPurpose_iff_ne.2 ⟨hexists, hstack⟩))

/-! ### The three passes -/

/-- **The labels of a function**: its table, or the first that is defined again. -/
theorem labels_eq_error_iff (function : Function) (e : AnalysisError) :
    function.labels = .error e ↔
      ∃ i label, e = .duplicateLabel function.name i label ∧ FirstAt function.Repeats i label := by
  have hrepeats : RepeatsAfter [] function.code = function.Repeats := by
    funext i label
    simp [RepeatsAfter, Repeats]
  rw [labels, labelsFrom_eq_error_iff, List.map_nil, hrepeats]
  simp

/-- **The jumps of a function**: where control can go, or the first jump to nowhere. -/
theorem successors_eq_error_iff {labels : List (String × Nat)}
    (hlabels : function.labels = .ok labels) (e : AnalysisError) :
    function.successors labels = .error e ↔
      ∃ i label, e = .unknownLabel function.name i label ∧ FirstAt function.Strays i label := by
  have hlookup : ∀ label, labels.lookup label = none ↔ .label label ∉ function.code := by
    intro label
    rw [Option.eq_none_iff_forall_ne_some, List.mem_iff_getElem?, not_exists]
    exact forall_congr' fun p => not_congr (lookup_labels hlabels)
  rw [successors, successorsFrom_eq_error_iff]
  simp only [hlookup, Nat.zero_add]
  rfl

/-- **The names of a function**: its points, or the first name outside the vocabulary. -/
theorem points_eq_error_iff {labels : List (String × Nat)} {successors : List (List Nat)}
    (hsuccessors : function.successors labels = .ok successors) (e : AnalysisError) :
    Liveness.pointsFrom function.name (Vocabulary.ofFunction function) 0 function.code successors =
        .error e ↔
      ∃ i name, e = .unknownRegister function.name i name ∧ FirstAt function.Foreign i name := by
  rw [Liveness.pointsFrom_eq_error_iff (successorsFrom_eq_ok hsuccessors).1]
  simp only [Nat.zero_add]
  rfl

end Function

namespace Liveness

variable {function : Function} {e : AnalysisError}

/-- **What the analysis reports is the first culprit.** -/
theorem culprit_of_analyse (h : analyse function = .error e) : function.Culprit e := by
  have hkind := analyse_error h
  simp only [analyse] at h
  split at h
  · next e' he' =>
    obtain rfl := Except.error.inj h
    obtain ⟨i, label, rfl, hfirst⟩ := (function.labels_eq_error_iff _).1 he'
    exact .repeats hfirst
  · next labels hlabels =>
    have hrepeats := FirstAt.not_found_of_ok function.labels_eq_error_iff hlabels
    split at h
    · next e' he' =>
      obtain rfl := Except.error.inj h
      obtain ⟨i, label, rfl, hfirst⟩ := (Function.successors_eq_error_iff hlabels _).1 he'
      exact .strays hrepeats hfirst
    · next successors hsuccessors =>
      have hstrays :=
        FirstAt.not_found_of_ok (Function.successors_eq_error_iff hlabels) hsuccessors
      split at h
      · next e' he' =>
        obtain rfl := Except.error.inj h
        obtain ⟨i, name, rfl, hfirst⟩ := (Function.points_eq_error_iff hsuccessors _).1 he'
        exact .foreign hrepeats hstrays hfirst
      · split at h
        · -- the passes over the equations come to rest
          obtain rfl := Except.error.inj h
          rcases hkind with ⟨_, _, hkind⟩ | ⟨_, _, hkind⟩ | ⟨⟨_, _, hkind⟩, -⟩ <;> cases hkind
        · simp at h

/-- **The first culprit is what the analysis reports.** -/
theorem analyse_of_culprit (h : function.Culprit e) : analyse function = .error e := by
  -- a pass without culprits does not stop
  have hlabelsOk : (∀ i label, ¬ function.Repeats i label) →
      ∃ labels, function.labels = .ok labels := fun hrepeats =>
    FirstAt.exists_ok_of_not_found function.labels_eq_error_iff hrepeats
  cases h with
  | @repeats i label hfirst =>
      rw [analyse, (function.labels_eq_error_iff _).2 ⟨i, label, rfl, hfirst⟩]
  | @strays i label hrepeats hfirst =>
      obtain ⟨labels, hlabels⟩ := hlabelsOk hrepeats
      simp only [analyse, hlabels,
        (Function.successors_eq_error_iff hlabels _).2 ⟨i, label, rfl, hfirst⟩]
  | @foreign i name hrepeats hstrays hfirst =>
      obtain ⟨labels, hlabels⟩ := hlabelsOk hrepeats
      obtain ⟨successors, hsuccessors⟩ :=
        FirstAt.exists_ok_of_not_found (Function.successors_eq_error_iff hlabels) hstrays
      simp only [analyse, hlabels, hsuccessors,
        (Function.points_eq_error_iff hsuccessors _).2 ⟨i, name, rfl, hfirst⟩]

/-- **The analysis rejects exactly the functions with a culprit, and names the first.**  A label
that is defined again comes before a jump to nowhere, and that before a name outside the vocabulary; of
each kind the first position is reported.  A function without culprits is analysed.  What is outside
the vocabulary is always the name of a register that is neither general purpose nor the stack
pointer, so a function that is read is never rejected for a name. -/
theorem analysis_rejects_first_culprit (function : Function) :
    (∀ e, analyse function = .error e ↔ function.Culprit e) ∧
      ((∃ result, analyse function = .ok result) ↔
        (∀ i label, ¬ function.Repeats i label) ∧ (∀ i label, ¬ function.Strays i label) ∧
          ∀ i name, ¬ function.Foreign i name) ∧
      (∀ i name, function.Foreign i name →
        At function.code (fun instruction name => ∃ item ∈ instruction.operands,
          item.register? = some name ∧ name ≠ Register.stackPointer ∧
            name ∉ Register.generalPurpose) i name) ∧
      (function.IsParsed → ∀ name i register,
        analyse function ≠ .error (.unknownRegister name i register)) := by
  refine ⟨fun e => ⟨culprit_of_analyse, analyse_of_culprit⟩, ⟨?_, ?_⟩,
    fun i name => Function.Foreign.register, ?_⟩
  · rintro ⟨result, hresult⟩
    obtain ⟨-, hvocabulary, hlabels, successors, hsuccessors, hpoints, -⟩ := analyse_eq_ok hresult
    rw [hvocabulary] at hpoints
    exact ⟨FirstAt.not_found_of_ok function.labels_eq_error_iff hlabels,
      FirstAt.not_found_of_ok (Function.successors_eq_error_iff hlabels) hsuccessors,
      FirstAt.not_found_of_ok (Function.points_eq_error_iff hsuccessors) hpoints⟩
  · rintro ⟨hrepeats, hstrays, hforeign⟩
    cases hanalyse : analyse function with
    | ok result => exact ⟨result, rfl⟩
    | error e =>
        cases culprit_of_analyse hanalyse with
        | repeats hfirst => exact absurd hfirst.1 (hrepeats _ _)
        | strays _ hfirst => exact absurd hfirst.1 (hstrays _ _)
        | foreign _ _ hfirst => exact absurd hfirst.1 (hforeign _ _)
  · intro hparsed name i register herror
    cases culprit_of_analyse herror with
    | foreign _ _ hfirst => exact hparsed.not_foreign hfirst.1

/-- Code with a culprit of each kind, in the opposite order.  The unknown register is two addresses
deep. -/
def muddled : List Instruction :=
  [.assign (.register "eax") (.memory (.memory (.register "r99") 0) 8), .goto "nowhere",
    .label "top", .label "top"]

theorem muddled_rejects_first_culprit :
    (Function.ofCode "f" 0 muddled).Culprit (.duplicateLabel "f" 3 "top") ∧
      (Function.ofCode "f" 0 (muddled.take 3)).Culprit (.unknownLabel "f" 1 "nowhere") ∧
      (Function.ofCode "f" 0 (muddled.take 1)).Culprit (.unknownRegister "f" 0 "r99") ∧
      (∃ item ∈ (Instruction.assign (.register "eax")
          (.memory (.memory (.register "r99") 0) 8)).operands,
        item.register? = some "r99" ∧ "r99" ≠ Register.stackPointer ∧
          "r99" ∉ Register.generalPurpose) ∧
      Function.read "(@f 0 :top (goto :top))".toList =
        .ok (.ofCode "f" 0 [.label "top", .goto "top"]) ∧
      ∀ name i register, analyse (.ofCode "f" 0 [.label "top", .goto "top"]) ≠
        .error (.unknownRegister name i register) := by
  have hforeign : (Function.ofCode "f" 0 (muddled.take 1)).Foreign 0 "r99" := ⟨_, rfl, rfl⟩
  obtain ⟨instruction, hi, hregister⟩ :=
    (analysis_rejects_first_culprit (.ofCode "f" 0 (muddled.take 1))).2.2.1 0 "r99" hforeign
  obtain rfl := Option.some_inj.1 hi
  have hread : Function.read "(@f 0 :top (goto :top))".toList =
      .ok (.ofCode "f" 0 [.label "top", .goto "top"]) := rfl
  exact ⟨((analysis_rejects_first_culprit _).1 _).1 rfl,
    ((analysis_rejects_first_culprit _).1 _).1 rfl,
    ((analysis_rejects_first_culprit _).1 _).1 rfl, hregister, hread,
    (analysis_rejects_first_culprit _).2.2.2 (Or.inl ⟨_, hread⟩)⟩

end Liveness

end RegisterColouring
