/-
**Spellings of numbers.**

A number can be written with a plus sign or leading zeros, and is read all the same.  Apart from
that a word that denotes an item, an operator or a service is the text of it.  So a term has one spelling
with all numbers in decimal, and the reader of instructions does not tell the term from it.

Main definitions:

* `RegisterColouring.Numeral.plain`, `RegisterColouring.Term.plain` — words and terms whose numbers
  are in decimal;
* `RegisterColouring.Term.IsInstruction` — a term that is written like a well formed instruction.

Main results:

* `RegisterColouring.Item.plain_eq_render` — a word that denotes an item is the text of the item, in
  decimal;
* `RegisterColouring.Instruction.ofElements_plain` — **the reader does not see how numbers are
  spelled**.
-/

import RegisterColouring.Proofs.ReadBack

set_option autoImplicit false

namespace RegisterColouring

/-! ### Spellings of numbers -/

namespace Numeral

/-- A word, in decimal if it is a number. -/
def plain (word : String) : String :=
  match int64? word.toList with
  | some value => integer value.toInt
  | none => word

variable {word keyword : String} {value : Int64}

theorem plain_of_some (h : int64? word.toList = some value) : plain word = integer value.toInt := by
  rw [plain, h]

theorem plain_of_none (h : int64? word.toList = none) : plain word = word := by
  rw [plain, h]

/-- A word that starts with a sigil, or like a register, is no number. -/
theorem int64?_eq_none {c : Char} (hc : c ∈ ['%', ':', '@', 'r']) (cs : List Char) :
    int64? (c :: cs) = none := by
  simp only [List.mem_cons, List.not_mem_nil, or_false] at hc
  rcases hc with rfl | rfl | rfl | rfl <;> rfl

/-- A number denotes an item, in any spelling. -/
theorem ofSymbol?_of_some (h : int64? word.toList = some value) :
    Item.ofSymbol? word = some (.number value) := by
  have hother : ∀ c cs, c ∈ ['%', ':', '@', 'r'] → word.toList ≠ c :: cs := by
    intro c cs hc hword
    rw [hword, int64?_eq_none hc] at h
    exact Option.some_ne_none _ h.symm
  unfold Item.ofSymbol?
  split
  · next hregister =>
    obtain ⟨cs, hword⟩ := List.head?_eq_some_iff.1 (Register.head?_of_isRegister hregister)
    exact absurd hword (hother _ _ (by decide))
  · split
    · next hword => exact absurd hword (hother _ _ (by decide))
    · next hword => exact absurd hword (hother _ _ (by decide))
    · next hword => exact absurd hword (hother _ _ (by decide))
    · rw [h, Option.map_some]

/-- A word denotes the same item in decimal. -/
theorem ofSymbol?_plain (word : String) : Item.ofSymbol? (plain word) = Item.ofSymbol? word := by
  cases h : int64? word.toList with
  | none => rw [plain_of_none h]
  | some value =>
      rw [plain_of_some h, ofSymbol?_of_some h]
      exact Item.ofSymbol?_number value

/-- No number becomes a keyword in decimal. -/
theorem plain_eq_iff (h : Item.ofSymbol? keyword = none) :
    plain word = keyword ↔ word = keyword := by
  have hplain : ∀ text, Item.ofSymbol? text = none → plain text = text := by
    intro text htext
    cases hvalue : int64? text.toList with
    | none => rw [plain_of_none hvalue]
    | some value =>
        rw [ofSymbol?_of_some hvalue] at htext
        exact absurd htext (Option.some_ne_none _)
  constructor
  · rintro rfl
    exact (hplain word ((ofSymbol?_plain word).symm.trans h)).symm
  · rintro rfl
    exact hplain word h

/-- What is read from words that are no items does not depend on the spelling of numbers. -/
theorem read_plain {β : Type} {read : String → Option β} {render : β → String}
    (hread : ∀ {word b}, read word = some b → word = render b)
    (hrender : ∀ b, Item.ofSymbol? (render b) = none) : read (plain word) = read word := by
  cases hword : int64? word.toList with
  | none => rw [plain_of_none hword]
  | some value =>
      have hnone : ∀ text, Item.ofSymbol? text = some (.number value) → read text = none := by
        intro text htext
        cases hb : read text with
        | none => rfl
        | some b =>
            rw [hread hb, hrender b] at htext
            exact absurd htext.symm (Option.some_ne_none _)
      have hsymbol := ofSymbol?_of_some hword
      rw [hnone word hsymbol, hnone _ ((ofSymbol?_plain word).trans hsymbol)]

end Numeral

/-! ### Operators and services -/

namespace ArithOp

theorem eq_render {text : String} {op : ArithOp} (h : ofText? text = some op) :
    text = op.render := by
  grind [ofText?, render]

theorem ofSymbol?_render (op : ArithOp) : Item.ofSymbol? op.render = none := by
  cases op <;> decide

end ArithOp

namespace ShiftOp

theorem eq_render {text : String} {op : ShiftOp} (h : ofText? text = some op) :
    text = op.render := by
  grind [ofText?, render]

theorem ofSymbol?_render (op : ShiftOp) : Item.ofSymbol? op.render = none := by
  cases op <;> decide

end ShiftOp

namespace Comparison

theorem eq_render {text : String} {op : Comparison} (h : ofText? text = some op) :
    text = op.render := by
  grind [ofText?, render]

theorem ofSymbol?_render (op : Comparison) : Item.ofSymbol? op.render = none := by
  cases op <;> decide

end Comparison

namespace Service

theorem eq_render {text : String} {service : Service} (h : ofText? text = some service) :
    text = service.render := by
  have hrender := List.find?_some h
  exact (beq_iff_eq.1 hrender).symm

theorem ofSymbol?_render (service : Service) : Item.ofSymbol? service.render = none := by
  cases service <;> decide

end Service

/-! ### Terms in decimal -/

namespace Term

mutual

/-- **A term whose numbers are in decimal.** -/
def plain : Term → Term
  | symbol span value => symbol span (Numeral.plain value)
  | list span elements => list span (plainAll elements)

/-- Terms whose numbers are in decimal. -/
def plainAll : List Term → List Term
  | [] => []
  | term :: terms => plain term :: plainAll terms

end

theorem plainAll_eq_map (terms : List Term) : plainAll terms = terms.map plain := by
  induction terms with
  | nil => rfl
  | cons term terms ih => rw [plainAll, List.map_cons, ih]

/-- A term without spans, its numbers in decimal. -/
def spelling (term : Term) : Tree := term.plain.tree

/-- **A term that is written like a well formed instruction**, numbers in any spelling. -/
def IsInstruction (term : Term) : Prop :=
  ∃ instruction : Instruction, instruction.isWellFormed = true ∧ term.spelling = instruction.tree

variable (term : Term)

@[simp] theorem span_plain : term.plain.span = term.span := by
  cases term <;> simp [plain]

@[simp] theorem symbol?_plain : term.plain.symbol? = term.symbol?.map Numeral.plain := by
  cases term <;> simp [plain, symbol?]

@[simp] theorem item?_plain : term.plain.item? = term.item? := by
  cases term with
  | symbol span value => simp [plain, item?, symbol?, Numeral.ofSymbol?_plain]
  | list span elements => simp [plain, item?, symbol?]

/-- The reader of operators and services does not see how numbers are spelled. -/
theorem bind_symbol?_plain {β : Type} {read : String → Option β} {render : β → String}
    (hread : ∀ {word b}, read word = some b → word = render b)
    (hrender : ∀ b, Item.ofSymbol? (render b) = none) :
    term.plain.symbol?.bind read = term.symbol?.bind read := by
  rw [symbol?_plain]
  cases term.symbol? with
  | none => rfl
  | some word => exact Numeral.read_plain hread hrender

theorem read_getD_plain {β : Type} {read : String → Option β} {render : β → String}
    (hread : ∀ {word b}, read word = some b → word = render b)
    (hrender : ∀ b, Item.ofSymbol? (render b) = none) :
    read (term.plain.symbol?.getD "") = read (term.symbol?.getD "") := by
  rw [symbol?_plain]
  cases term.symbol? with
  | none => rfl
  | some word => exact Numeral.read_plain hread hrender

/-- A keyword is the same word in decimal. -/
theorem symbol?_plain_eq_iff {keyword : String} (h : Item.ofSymbol? keyword = none) :
    term.plain.symbol? = some keyword ↔ term.symbol? = some keyword := by
  rw [symbol?_plain, Option.map_eq_some_iff]
  simp [Numeral.plain_eq_iff h]

theorem getD_symbol?_plain_eq_iff {keyword : String} (h : Item.ofSymbol? keyword = none)
    (hne : keyword ≠ "") :
    term.plain.symbol?.getD "" = keyword ↔ term.symbol?.getD "" = keyword := by
  rw [symbol?_plain]
  cases term.symbol? with
  | none => simp [hne.symm]
  | some word => simpa using Numeral.plain_eq_iff h

@[simp] theorem refuse_plain {α : Type} (complaint : Complaint) :
    (Read.refuse term.plain complaint : Read α) = Read.refuse term complaint := by
  rw [Read.refuse, Read.refuse, span_plain]

@[simp] theorem itemWith_plain (test : Item → Bool) (complaint : Complaint) :
    term.plain.itemWith test complaint = term.itemWith test complaint := by
  simp [itemWith]

@[simp] theorem labelName_plain : term.plain.labelName = term.labelName := by
  simp [labelName]

@[simp] theorem numberWith_plain (test : Int64 → Bool) (complaint : Complaint) :
    term.plain.numberWith test complaint = term.numberWith test complaint := by
  simp [numberWith]

@[simp] theorem comparison_plain : term.plain.comparison = term.comparison := by
  rw [comparison, comparison, bind_symbol?_plain term Comparison.eq_render
    Comparison.ofSymbol?_render, refuse_plain]

@[simp] theorem valueItem_plain : term.plain.valueItem = term.valueItem :=
  itemWith_plain term _ _

@[simp] theorem writableItem_plain : term.plain.writableItem = term.writableItem :=
  itemWith_plain term _ _

@[simp] theorem memoryItem_plain (base offset : Term) :
    memoryItem base.plain offset.plain = memoryItem base offset := by
  simp [memoryItem]

end Term

/-! ### Words that are read -/

/-- A word that denotes an item is the text of the item, or a number in another spelling. -/
theorem Item.eq_render_or_int64? {word : String} {item : Item} (h : ofSymbol? word = some item) :
    word = item.render ∨
      ∃ value, Numeral.int64? word.toList = some value ∧ item = number value := by
  have hidentifier : ∀ (make : String → Item) (c : Char) (cs : List Char),
      (∀ name, (make name).render.toList = c :: name.toList) → word.toList = c :: cs →
      ofIdentifier? make cs = some item → word = item.render := by
    intro make c cs hmake hword hcs
    unfold ofIdentifier? at hcs
    split at hcs
    · rw [← Option.some_inj.1 hcs, ← String.toList_inj, hmake, hword, String.toList_ofList]
    · simp at hcs
  unfold ofSymbol? at h
  split at h
  · exact Or.inl (by rw [← Option.some_inj.1 h, render])
  · split at h
    · next hword => exact Or.inl (hidentifier var _ _ Name.toList_ofVariable hword h)
    · next hword => exact Or.inl (hidentifier label _ _ toList_label hword h)
    · next hword => exact Or.inl (hidentifier function _ _ toList_function hword h)
    · obtain ⟨value, hvalue, rfl⟩ := Option.map_eq_some_iff.1 h
      exact Or.inr ⟨value, hvalue, rfl⟩

/-- A word that denotes an item is the text of the item, in decimal. -/
theorem Item.plain_eq_render {word : String} {item : Item} (h : ofSymbol? word = some item) :
    Numeral.plain word = item.render := by
  cases hword : Numeral.int64? word.toList with
  | some value =>
      rw [Numeral.ofSymbol?_of_some hword, Option.some_inj] at h
      rw [Numeral.plain_of_some hword, ← h, render]
  | none =>
      rw [Numeral.plain_of_none hword]
      rcases eq_render_or_int64? h with hrender | ⟨value, hvalue, -⟩
      · exact hrender
      · rw [hword] at hvalue
        exact absurd hvalue.symm (Option.some_ne_none _)

/-- No number starts with a register or a variable. -/
theorem Item.int64?_eq_none {item : Item} (h : item.isAssignable = true) (cs : List Char) :
    Numeral.int64? (item.render.toList ++ cs) = none := by
  cases item with
  | register name =>
      have hregister := (Register.isGeneralPurpose_iff_ne.1 h).1
      obtain ⟨rest, hname⟩ := List.head?_eq_some_iff.1 (Register.head?_of_isRegister hregister)
      rw [render, hname, List.cons_append, Numeral.int64?_eq_none (by decide)]
  | var name =>
      rw [render, Name.toList_ofVariable, List.cons_append, Numeral.int64?_eq_none (by decide)]
  | _ => simp [isAssignable] at h

namespace Term

variable {term : Term} {keyword : String} {item : Item}

theorem spelling_list (span : Span) (elements : List Term) :
    (list span elements).spelling = .node (elements.map spelling) := by
  rw [spelling, plain, tree, trees_eq_map, plainAll_eq_map, List.map_map]
  rfl

theorem spelling_of_symbol? {word : String} (h : term.symbol? = some word) :
    term.spelling = .leaf (Numeral.plain word) := by
  cases term with
  | symbol span value =>
      rw [spelling, plain, tree, Option.some_inj.1 h]
  | list span elements => simp [symbol?] at h

theorem spelling_of_keyword (hkeyword : Item.ofSymbol? keyword = none)
    (h : term.symbol? = some keyword) : term.spelling = .leaf keyword := by
  rw [spelling_of_symbol? h, (Numeral.plain_eq_iff hkeyword).2 rfl]

theorem spelling_of_item? (h : term.item? = some item) : term.spelling = .leaf item.render := by
  obtain ⟨word, hword, hitem⟩ := Option.bind_eq_some_iff.1 h
  rw [spelling_of_symbol? hword, Item.plain_eq_render hitem]

theorem spelling_of_getD (hkeyword : Item.ofSymbol? keyword = none) (hne : keyword ≠ "")
    (h : term.symbol?.getD "" = keyword) : term.spelling = .leaf keyword := by
  cases hsymbol : term.symbol? with
  | none => exact absurd (by rw [← h, hsymbol, Option.getD_none]) hne
  | some word =>
      rw [hsymbol, Option.getD_some] at h
      exact spelling_of_keyword hkeyword (h ▸ hsymbol)

/-- An operator or a service is written as its text. -/
theorem spelling_of_read {β : Type} {read : String → Option β} {render : β → String}
    (hread : ∀ {word b}, read word = some b → word = render b)
    (hrender : ∀ b, Item.ofSymbol? (render b) = none) {b : β}
    (h : term.symbol?.bind read = some b) : term.spelling = .leaf (render b) := by
  obtain ⟨word, hword, hb⟩ := Option.bind_eq_some_iff.1 h
  obtain rfl := hread hb
  exact spelling_of_keyword (hrender b) hword

end Term

/-! ### Instructions in decimal -/

namespace Instruction

variable (whole first second third : Term) (elements : List Term)

@[simp] theorem comparands_plain (make : Item → Comparison → Item → Instruction) :
    comparands first.plain second.plain third.plain make = comparands first second third make := by
  simp [comparands]

@[simp] theorem ofGoto_plain :
    ofGoto whole.plain (elements.map Term.plain) = ofGoto whole elements := by
  rcases elements with _ | ⟨_, _ | ⟨_, _ | _⟩⟩ <;> simp [ofGoto]

@[simp] theorem calleeOf_plain (term : Term) : calleeOf term.plain = calleeOf term := by
  rw [calleeOf, calleeOf, term.bind_symbol?_plain Service.eq_render Service.ofSymbol?_render]
  simp

@[simp] theorem ofCall_plain :
    ofCall whole.plain (elements.map Term.plain) = ofCall whole elements := by
  rcases elements with _ | ⟨_, _ | ⟨_, _ | ⟨_, _ | _⟩⟩⟩ <;> simp [ofCall]

@[simp] theorem ofJumpIf_plain :
    ofJumpIf whole.plain (elements.map Term.plain) = ofJumpIf whole elements := by
  rcases elements with _ | ⟨_, _ | ⟨_, _ | ⟨_, _ | ⟨_, _ | ⟨_, _ | _⟩⟩⟩⟩⟩ <;> simp [ofJumpIf]

@[simp] theorem ofMemory_plain :
    ofMemory whole.plain (elements.map Term.plain) = ofMemory whole elements := by
  rcases elements with _ | ⟨_, _ | ⟨_, _ | ⟨_, _ | ⟨op, _ | ⟨_, _ | _⟩⟩⟩⟩⟩
  case cons.cons.cons.cons.cons.nil =>
    have harrow : op.plain.symbol? = some "<-" ↔ op.symbol? = some "<-" :=
      op.symbol?_plain_eq_iff (by decide)
    have hop := op.bind_symbol?_plain ArithOp.eq_render ArithOp.ofSymbol?_render
    simp [ofMemory, harrow, hop, -Term.symbol?_plain]
  all_goals simp [ofMemory]

@[simp] theorem ofSources_plain (target : Item) :
    ofSources whole.plain target (elements.map Term.plain) = ofSources whole target elements := by
  have hstack (term : Term) :
      term.plain.symbol? = some "stack-arg" ↔ term.symbol? = some "stack-arg" :=
    term.symbol?_plain_eq_iff (by decide)
  have hmem (term : Term) : term.plain.symbol? = some "mem" ↔ term.symbol? = some "mem" :=
    term.symbol?_plain_eq_iff (by decide)
  rcases elements with _ | ⟨_, _ | ⟨_, _ | ⟨_, _ | _⟩⟩⟩ <;>
    simp [ofSources, hstack, hmem, -Term.symbol?_plain]

@[simp] theorem ofArith_plain (op : ArithOp) (target : Item) :
    ofArith whole.plain op target (elements.map Term.plain) = ofArith whole op target elements := by
  have hmem (term : Term) : term.plain.symbol? = some "mem" ↔ term.symbol? = some "mem" :=
    term.symbol?_plain_eq_iff (by decide)
  rcases elements with _ | ⟨_, _ | ⟨_, _ | ⟨_, _ | _⟩⟩⟩ <;>
    simp [ofArith, hmem, -Term.symbol?_plain]

@[simp] theorem ofShift_plain (target : Term) (op : ShiftOp) :
    ofShift whole.plain target.plain op (elements.map Term.plain) =
      ofShift whole target op elements := by
  rcases elements with _ | ⟨_, _ | _⟩ <;> simp [ofShift]

@[simp] theorem ofAddress_plain (target : Term) :
    ofAddress whole.plain target.plain (elements.map Term.plain) =
      ofAddress whole target elements := by
  rcases elements with _ | ⟨_, _ | ⟨_, _ | ⟨_, _ | _⟩⟩⟩ <;> simp [ofAddress]

@[simp] theorem ofOperator_plain (target op : Term) :
    ofOperator whole.plain target.plain op.plain (elements.map Term.plain) =
      ofOperator whole target op elements := by
  have harrow : op.plain.symbol?.getD "" = "<-" ↔ op.symbol?.getD "" = "<-" :=
    op.getD_symbol?_plain_eq_iff (by decide) (by decide)
  have haddress : op.plain.symbol?.getD "" = "@" ↔ op.symbol?.getD "" = "@" :=
    op.getD_symbol?_plain_eq_iff (by decide) (by decide)
  have harith := op.read_getD_plain ArithOp.eq_render ArithOp.ofSymbol?_render
  have hshift := op.read_getD_plain ShiftOp.eq_render ShiftOp.ofSymbol?_render
  simp only [ofOperator, harrow, haddress, harith, hshift, Term.writableItem_plain,
    ofSources_plain, ofArith_plain, ofShift_plain, ofAddress_plain, Term.refuse_plain]

/-- **The reader does not see how numbers are spelled**, unless an instruction is one word. -/
theorem ofElements_plain (h : elements.length ≠ 1) :
    ofElements whole.plain (elements.map Term.plain) = ofElements whole elements := by
  rcases elements with _ | ⟨first, _ | ⟨second, rest⟩⟩
  · simp [ofElements]
  · exact absurd rfl h
  · have hkeyword : ∀ keyword ∈ ["goto", "call", "cjump", "mem"],
        (first.plain.symbol?.getD "" = keyword ↔ first.symbol?.getD "" = keyword) := by
      have hnone : ∀ keyword ∈ ["goto", "call", "cjump", "mem"],
          Item.ofSymbol? keyword = none ∧ keyword ≠ "" := by decide
      intro keyword hmem
      exact first.getD_symbol?_plain_eq_iff (hnone keyword hmem).1 (hnone keyword hmem).2
    have hgoto := ofGoto_plain whole (first :: second :: rest)
    have hcall := ofCall_plain whole (first :: second :: rest)
    have hjump := ofJumpIf_plain whole (first :: second :: rest)
    have hmemory := ofMemory_plain whole (first :: second :: rest)
    simp only [List.map_cons] at hgoto hcall hjump hmemory
    simp only [ofElements, List.map_cons, hkeyword "goto" (by decide), hkeyword "call" (by decide),
      hkeyword "cjump" (by decide), hkeyword "mem" (by decide), hgoto, hcall, hjump, hmemory,
      List.isEmpty_map, ofOperator_plain, Term.refuse_plain]

end Instruction

end RegisterColouring
