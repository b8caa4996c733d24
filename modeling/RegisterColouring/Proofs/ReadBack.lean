/-
**Reading back.**

The text of well formed code is read as the code it is the text of.  A term that was read from an
item's word denotes the item, because no word is the text of two items and no item is written like a
keyword; the words of an instruction then decide which instruction is read.  Together with what
reading yields, this makes the well formed functions and programs exactly those that can be read.

Main results:

* `RegisterColouring.Item.ofSymbol?_render` — the word of an item denotes it;
* `RegisterColouring.Instruction.ofTerm_of_tree`, `RegisterColouring.Function.ofTerm_of_tree`,
  `RegisterColouring.Program.ofTerm_of_tree` — a term that has the tree of well formed code denotes
  the code;
* `RegisterColouring.Function.read_render`, `RegisterColouring.Program.read_render` — **the text of
  well formed code is read back**;
* `RegisterColouring.reading_inverts_rendering` — **exactly the well formed functions and programs can
  be read, and each of them from its own text**.
-/

import RegisterColouring.Proofs.CodeText
import RegisterColouring.Proofs.Grammar

set_option autoImplicit false

namespace RegisterColouring

/-! ### Items -/

/-- Every register's name starts with the same letter. -/
theorem Register.head?_of_isRegister {name : String} (h : isRegister name = true) :
    name.toList.head? = some 'r' := by
  have hall : ∀ r ∈ stackPointer :: generalPurpose, r.toList.head? = some 'r' := by decide
  apply hall
  simpa [isRegister] using h

theorem Register.isRegister_eq_false {name : String} {c : Char} {cs : List Char}
    (h : name.toList = c :: cs) (hc : c ≠ 'r') : isRegister name = false := by
  rw [← Bool.not_eq_true]
  intro hregister
  have hhead := head?_of_isRegister hregister
  rw [h, List.head?_cons, Option.some_inj] at hhead
  exact hc hhead

namespace Item

variable {item : Item}

theorem ofSymbol?_number (value : Int64) :
    ofSymbol? (number value).render = some (number value) := by
  obtain ⟨hne, hletters⟩ := Numeral.integer_letters value.toInt
  have hread := Numeral.int64?_integer value
  rw [render]
  cases hlist : (Numeral.integer value.toInt).toList with
  | nil => exact absurd hlist hne
  | cons c cs =>
      rw [hlist] at hletters hread
      have hc := hletters c (List.mem_cons_self ..)
      have hother : ∀ d, d.isDigit = false → d ≠ '-' → c ≠ d := by
        rintro d hd hminus rfl
        rcases hc with hc | hc
        · rw [hd] at hc
          exact Bool.false_ne_true hc
        · exact hminus hc
      have hregister := Register.isRegister_eq_false hlist (hother 'r' (by decide) (by decide))
      unfold ofSymbol?
      rw [hregister, hlist]
      split
      · next h => exact absurd h (by decide)
      · split
        · next h => exact absurd (List.cons.inj h).1 (hother '%' (by decide) (by decide))
        · next h => exact absurd (List.cons.inj h).1 (hother ':' (by decide) (by decide))
        · next h => exact absurd (List.cons.inj h).1 (hother '@' (by decide) (by decide))
        · rw [hread, Option.map_some]

theorem ofIdentifier?_toList {make : String → Item} {name : String}
    (h : isIdentifier name.toList = true) : ofIdentifier? make name.toList = some (make name) := by
  rw [ofIdentifier?, if_pos h, String.ofList_toList]

/-- **The word of an item denotes it.** -/
theorem ofSymbol?_render (h : item.isSource = true) : ofSymbol? item.render = some item := by
  cases item with
  | register name => exact if_pos h
  | memory base offset => simp [isSource, isOperand] at h
  | number value => exact ofSymbol?_number value
  | var name =>
      have htext := Name.toList_ofVariable name
      have hregister := Register.isRegister_eq_false htext (by decide)
      simp only [render, ofSymbol?, hregister, htext, Bool.false_eq_true, if_false]
      exact ofIdentifier?_toList h
  | label name =>
      have htext := toList_label name
      have hregister := Register.isRegister_eq_false htext (by decide)
      simp only [ofSymbol?, hregister, htext, Bool.false_eq_true, if_false]
      exact ofIdentifier?_toList h
  | function name =>
      have htext := toList_function name
      have hregister := Register.isRegister_eq_false htext (by decide)
      simp only [ofSymbol?, hregister, htext, Bool.false_eq_true, if_false]
      exact ofIdentifier?_toList h

theorem exists_of_isCell (h : item.isCell = true) : ∃ base offset, item = memory base offset := by
  cases item with
  | memory base offset => exact ⟨base, offset, rfl⟩
  | _ => simp [isCell] at h

/-- No item is written like a word that denotes none. -/
theorem render_ne {word : String} (h : item.isSource = true) (hword : ofSymbol? word = none) :
    item.render ≠ word := by
  rintro rfl
  rw [ofSymbol?_render h] at hword
  exact Option.some_ne_none _ hword

end Item

/-! ### Terms -/

theorem Read.ok_bind {α β : Type} (a : α) (next : α → Read β) :
    ((.ok a : Read α) >>= next) = next a := rfl

namespace Term

variable {term : Term} {item : Item}

theorem symbol?_of_tree {word : String} (h : term.tree = .leaf word) :
    term.symbol? = some word := by
  obtain ⟨span, rfl⟩ := tree_eq_leaf_iff.1 h
  rfl

theorem item?_of_tree (hitem : item.isSource = true) (h : term.tree = .leaf item.render) :
    term.item? = some item := by
  rw [item?, symbol?_of_tree h, Option.bind_some, Item.ofSymbol?_render hitem]

theorem itemWith_of_tree {test : Item → Bool} {complaint : Complaint}
    (hitem : item.isSource = true) (htest : test item = true) (h : term.tree = .leaf item.render) :
    term.itemWith test complaint = .ok item := by
  simp only [itemWith, item?_of_tree hitem h, htest, if_true]

theorem writableItem_of_tree (hitem : item.isAssignable = true)
    (h : term.tree = .leaf item.render) : term.writableItem = .ok item :=
  itemWith_of_tree (Item.isAssignable_iff.1 hitem).1 (Item.isAssignable_iff.1 hitem).2 h

theorem valueItem_of_tree (hitem : item.isOperand = true)
    (h : term.tree = .leaf item.render) : term.valueItem = .ok item :=
  itemWith_of_tree (Item.isOperand_iff.1 hitem).1 (Item.isOperand_iff.1 hitem).2 h

theorem labelName_of_tree {name : String} (hname : isIdentifier name.toList = true)
    (h : term.tree = .leaf (Item.label name).render) : term.labelName = .ok name := by
  have hitem : term.item? = some (.label name) := item?_of_tree hname h
  rw [labelName, hitem]

theorem functionName_of_tree {name : String} {complaint : Complaint}
    (hname : isIdentifier name.toList = true)
    (h : term.tree = .leaf (Item.function name).render) :
    term.functionName complaint = .ok name := by
  have hitem : term.item? = some (.function name) := item?_of_tree hname h
  rw [functionName, hitem]

theorem numberWith_of_tree {test : Int64 → Bool} {complaint : Complaint} {value : Int64}
    (htest : test value = true) (h : term.tree = .leaf (Item.number value).render) :
    term.numberWith test complaint = .ok value := by
  have hitem : term.item? = some (.number value) := item?_of_tree rfl h
  simp only [numberWith, hitem, htest, if_true]

theorem comparison_of_tree {op : Comparison} (h : term.tree = .leaf op.render) :
    term.comparison = .ok op := by
  rw [comparison, symbol?_of_tree h, Option.bind_some, Comparison.ofText?_render]

theorem memoryItem_of_tree {base offset : Term} {address : Item} {value : Int64}
    (hcell : (Item.memory address value).isCell = true) (hbase : base.tree = .leaf address.render)
    (hoffset : offset.tree = .leaf (Item.number value).render) :
    memoryItem base offset = .ok (.memory address value) := by
  obtain ⟨⟨hsource, hisBase⟩, haligned⟩ := Item.isCell_memory_iff.1 hcell
  have hvalue : offset.numberWith (· % 8 == 0) .misalignedOffset = .ok value :=
    numberWith_of_tree (beq_iff_eq.2 haligned) hoffset
  rw [memoryItem, itemWith_of_tree hsource hisBase hbase, hvalue]
  rfl

end Term

/-! ### Instructions -/

namespace Instruction

variable {whole first second third : Term} {rest : List Term} {item : Item}

theorem comparands_of_tree {left right : Item} {op : Comparison}
    {make : Item → Comparison → Item → Instruction} (hleft : left.isOperand = true)
    (hright : right.isOperand = true) (hfirst : first.tree = .leaf left.render)
    (hsecond : second.tree = .leaf op.render) (hthird : third.tree = .leaf right.render) :
    comparands first second third make = .ok (make left op right) := by
  rw [comparands, Term.valueItem_of_tree hleft hfirst, Term.comparison_of_tree hsecond,
    Term.valueItem_of_tree hright hthird]

/-- A list that starts with an item is read by its operator. -/
theorem ofElements_of_tree (hitem : item.isSource = true)
    (hfirst : first.tree = .leaf item.render) :
    ofElements whole (first :: second :: third :: rest) =
      ofOperator whole first second (third :: rest) := by
  have hgoto : item.render ≠ "goto" := Item.render_ne hitem (by decide)
  have hcall : item.render ≠ "call" := Item.render_ne hitem (by decide)
  have hjump : item.render ≠ "cjump" := Item.render_ne hitem (by decide)
  have hmem : item.render ≠ "mem" := Item.render_ne hitem (by decide)
  simp only [ofElements, Term.symbol?_of_tree hfirst, Option.getD_some, hgoto, hcall, hjump, hmem,
    List.isEmpty_cons, Bool.false_eq_true, if_false]

theorem ofOperator_arrow (hitem : item.isAssignable = true)
    (hfirst : first.tree = .leaf item.render) (hsecond : second.tree = .leaf "<-") :
    ofOperator whole first second rest = ofSources whole item rest := by
  simp only [ofOperator, Term.symbol?_of_tree hsecond, Option.getD_some, if_true,
    Term.writableItem_of_tree hitem hfirst]
  rfl

theorem ofOperator_arith {op : ArithOp} (hitem : item.isAssignable = true)
    (hfirst : first.tree = .leaf item.render) (hsecond : second.tree = .leaf op.render) :
    ofOperator whole first second rest = ofArith whole op item rest := by
  have harrow : op.render ≠ "<-" := by cases op <;> decide
  simp only [ofOperator, Term.symbol?_of_tree hsecond, Option.getD_some, harrow, if_false,
    ArithOp.ofText?_render, Term.writableItem_of_tree hitem hfirst]
  rfl

theorem ofOperator_shift {op : ShiftOp} (hsecond : second.tree = .leaf op.render) :
    ofOperator whole first second rest = ofShift whole first op rest := by
  have harrow : op.render ≠ "<-" := by cases op <;> decide
  have harith : ArithOp.ofText? op.render = none := by cases op <;> decide
  simp only [ofOperator, Term.symbol?_of_tree hsecond, Option.getD_some, harrow, if_false, harith,
    ShiftOp.ofText?_render]

theorem ofOperator_address (hsecond : second.tree = .leaf "@") :
    ofOperator whole first second rest = ofAddress whole first rest := by
  rw [ofOperator, Term.symbol?_of_tree hsecond]
  rfl

/-- Terms with three given trees. -/
theorem exists_three {elements : List Term} {a b c : Tree}
    (h : elements.map Term.tree = [a, b, c]) :
    ∃ first second third, elements = [first, second, third] ∧ first.tree = a ∧ second.tree = b ∧
      third.tree = c := by
  simp only [List.map_eq_cons_iff, List.map_eq_nil_iff] at h
  obtain ⟨first, _, rfl, hfirst, second, _, rfl, hsecond, third, _, rfl, hthird, rfl⟩ := h
  exact ⟨first, second, third, rfl, hfirst, hsecond, hthird⟩

/-- Terms with five given trees. -/
theorem exists_five {elements : List Term} {a b c d e : Tree}
    (h : elements.map Term.tree = [a, b, c, d, e]) :
    ∃ first second third fourth fifth, elements = [first, second, third, fourth, fifth] ∧
      first.tree = a ∧ second.tree = b ∧ third.tree = c ∧ fourth.tree = d ∧ fifth.tree = e := by
  rw [List.map_eq_cons_iff] at h
  obtain ⟨first, _, rfl, hfirst, h⟩ := h
  rw [List.map_eq_cons_iff] at h
  obtain ⟨second, _, rfl, hsecond, h⟩ := h
  obtain ⟨third, fourth, fifth, rfl, hlast⟩ := exists_three h
  exact ⟨first, second, third, fourth, fifth, rfl, hfirst, hsecond, hlast⟩

/-- Words between the parentheses of a list are its elements. -/
theorem exists_elements {words : List String} {term : Term}
    (h : term.tree = .node (words.map .leaf)) :
    ∃ elements, ofTerm term = ofElements term elements ∧
      elements.map Term.tree = words.map .leaf := by
  obtain ⟨span, elements, rfl, helements⟩ := Term.tree_eq_node_iff.1 h
  exact ⟨elements, rfl, helements⟩

/-- A list that starts with the keyword of memory cells is read as a store or as arithmetic. -/
theorem ofElements_memory (hfirst : first.tree = .leaf "mem") :
    ofElements whole (first :: second :: rest) = ofMemory whole (first :: second :: rest) := by
  rw [ofElements, Term.symbol?_of_tree hfirst]
  rfl

/-- An instruction is read from its words. -/
def ReadsBack (instruction : Instruction) : Prop :=
  ∀ (whole : Term) (elements : List Term),
    elements.map Term.tree = instruction.words.map .leaf →
      ofElements whole elements = .ok instruction

theorem readsBack_assign {target source : Item}
    (h : (assign target source).isWellFormed = true) : (assign target source).ReadsBack := by
  intro whole elements helements
  simp only [isWellFormed, Bool.and_eq_true, Bool.or_eq_true] at h
  rcases h with ⟨htarget, hsource | hsource⟩ | ⟨htarget, hsource⟩
  · have hisSource := Item.isSource_of_isAssignable htarget
    rw [words, Item.words_of_isSource hisSource, Item.words_of_isSource hsource] at helements
    obtain ⟨first, second, third, rfl, hfirst, hsecond, hthird⟩ := exists_three helements
    rw [ofElements_of_tree hisSource hfirst, ofOperator_arrow htarget hfirst hsecond, ofSources,
      Term.itemWith_of_tree hsource rfl hthird]
    rfl
  · have hisSource := Item.isSource_of_isAssignable htarget
    obtain ⟨address, offset, rfl⟩ := Item.exists_of_isCell hsource
    rw [words, Item.words_of_isSource hisSource, Item.words_memory] at helements
    obtain ⟨first, second, keyword, base, value, rfl, hfirst, hsecond, hkeyword, hbase, hvalue⟩ :=
      exists_five helements
    rw [ofElements_of_tree hisSource hfirst, ofOperator_arrow htarget hfirst hsecond, ofSources,
      if_pos (Term.symbol?_of_tree hkeyword), Term.memoryItem_of_tree hsource hbase hvalue]
    rfl
  · obtain ⟨address, offset, rfl⟩ := Item.exists_of_isCell htarget
    rw [words, Item.words_memory, Item.words_of_isSource hsource] at helements
    obtain ⟨keyword, base, value, op, last, rfl, hkeyword, hbase, hvalue, hop, hlast⟩ :=
      exists_five helements
    rw [ofElements_memory hkeyword, ofMemory, Term.memoryItem_of_tree htarget hbase hvalue,
      Read.ok_bind, if_pos (Term.symbol?_of_tree hop), Term.itemWith_of_tree hsource rfl hlast]
    rfl

theorem readsBack_memoryArith {op : ArithOp} {target source : Item}
    (h : (memoryArith op target source).isWellFormed = true) :
    (memoryArith op target source).ReadsBack := by
  intro whole elements helements
  simp only [isWellFormed, Bool.and_eq_true, Bool.or_eq_true] at h
  rcases h with ⟨hworks, ⟨htarget, hsource⟩ | ⟨htarget, hsource⟩⟩
  · have hisSource := Item.isSource_of_isOperand hsource
    obtain ⟨address, offset, rfl⟩ := Item.exists_of_isCell htarget
    rw [words, Item.words_memory, Item.words_of_isSource hisSource] at helements
    obtain ⟨keyword, base, value, second, last, rfl, hkeyword, hbase, hvalue, hsecond, hlast⟩ :=
      exists_five helements
    have harrow : op.render ≠ "<-" := by cases op <;> decide
    rw [ofElements_memory hkeyword, ofMemory, Term.memoryItem_of_tree htarget hbase hvalue,
      Read.ok_bind, Term.symbol?_of_tree hsecond, if_neg (by simpa using harrow), Option.bind_some,
      ArithOp.ofText?_render, Term.valueItem_of_tree hsource hlast]
    exact if_pos hworks
  · have hisSource := Item.isSource_of_isAssignable htarget
    obtain ⟨address, offset, rfl⟩ := Item.exists_of_isCell hsource
    rw [words, Item.words_of_isSource hisSource, Item.words_memory] at helements
    obtain ⟨first, second, keyword, base, value, rfl, hfirst, hsecond, hkeyword, hbase, hvalue⟩ :=
      exists_five helements
    rw [ofElements_of_tree hisSource hfirst, ofOperator_arith htarget hfirst hsecond, ofArith,
      if_pos ⟨Term.symbol?_of_tree hkeyword, hworks⟩, Term.memoryItem_of_tree hsource hbase hvalue]
    rfl

/-- The word of a callee denotes it. -/
theorem calleeOf_of_tree {callee : Callee} {term : Term} (h : callee.isWellFormed = true)
    (htree : term.tree = .leaf callee.render) : calleeOf term = .ok callee := by
  cases callee with
  | service s =>
      have hservice : Service.ofText? s.render = some s := by cases s <;> decide
      rw [calleeOf, Term.symbol?_of_tree htree, Callee.render, Option.bind_some, hservice]
  | code address =>
      have hsource := Callee.isSource_of_isWellFormed h
      have hitem : term.item? = some address := Term.item?_of_tree hsource htree
      have hservice : Service.ofText? address.render = none := by
        rw [Service.ofText?, List.find?_eq_none]
        intro s _ hs
        have hnone : Item.ofSymbol? s.render = none := by cases s <;> decide
        exact Item.render_ne hsource hnone (beq_iff_eq.1 hs).symm
      rw [calleeOf, Term.symbol?_of_tree htree, Callee.render, Option.bind_some, hservice, hitem]
      cases address with
      | function name => rfl
      | _ =>
          refine if_pos ?_
          exact Item.isWritable_of_isAssignable h

/-- A word with a step at its end is read as the step. -/
theorem ofWord_step {target : Item} (h : target.isAssignable = true) (direction : Step) :
    ofWord whole (target.render ++ direction.render) = .ok (step target direction) := by
  obtain ⟨hsource, hwritable⟩ := Item.isAssignable_iff.1 h
  have hstepped : ofWord.stepped whole target.render.toList.reverse direction =
      .ok (step target direction) := by
    rw [ofWord.stepped, List.reverse_reverse, String.ofList_toList, Item.ofSymbol?_render hsource]
    exact if_pos hwritable
  have hword : target.render ++ direction.render ≠ "return" := by
    intro hreturn
    have hlast := congrArg (fun text => text.toList.getLast?) hreturn
    cases direction <;> simp [Step.render] at hlast
  rw [ofWord, if_neg hword, String.toList_append, List.reverse_append]
  cases direction with
  | up => exact hstepped
  | down => exact hstepped

theorem readsBack_stackArgument {target : Item} {offset : Int64}
    (h : (stackArgument target offset).isWellFormed = true) :
    (stackArgument target offset).ReadsBack := by
  intro whole elements helements
  simp only [words, List.map_cons, List.map_nil, List.map_eq_cons_iff,
    List.map_eq_nil_iff] at helements
  obtain ⟨first, _, rfl, hfirst, second, _, rfl, hsecond, keyword, _, rfl, hkeyword, value, _,
    rfl, hvalue, rfl⟩ := helements
  rw [ofElements_of_tree (Item.isSource_of_isAssignable h) hfirst,
    ofOperator_arrow h hfirst hsecond, ofSources, if_pos (Term.symbol?_of_tree hkeyword),
    Term.numberWith_of_tree rfl hvalue]
  rfl

theorem readsBack_arith {op : ArithOp} {target source : Item}
    (h : (arith op target source).isWellFormed = true) : (arith op target source).ReadsBack := by
  intro whole elements helements
  simp only [isWellFormed, Bool.and_eq_true] at h
  obtain ⟨first, second, last, rfl, hfirst, hsecond, hlast⟩ := exists_three helements
  rw [ofElements_of_tree (Item.isSource_of_isAssignable h.1) hfirst,
    ofOperator_arith h.1 hfirst hsecond, ofArith, Term.valueItem_of_tree h.2 hlast]
  rfl

theorem readsBack_shift {op : ShiftOp} {target amount : Item}
    (h : (shift op target amount).isWellFormed = true) : (shift op target amount).ReadsBack := by
  intro whole elements helements
  simp only [isWellFormed, Bool.and_eq_true] at h
  obtain ⟨first, second, last, rfl, hfirst, hsecond, hlast⟩ := exists_three helements
  obtain ⟨hsource, hamount⟩ := Item.isAmount_iff.1 h.2
  rw [ofElements_of_tree (Item.isSource_of_isAssignable h.1) hfirst,
    ofOperator_shift hsecond, ofShift, Term.writableItem_of_tree h.1 hfirst,
    Term.itemWith_of_tree hsource hamount hlast]
  rfl

theorem readsBack_compare {target left right : Item} {op : Comparison}
    (h : (compare target op left right).isWellFormed = true) :
    (compare target op left right).ReadsBack := by
  intro whole elements helements
  simp only [isWellFormed, Bool.and_eq_true] at h
  obtain ⟨⟨htarget, hleft⟩, hright⟩ := h
  obtain ⟨first, second, third, fourth, fifth, rfl, hfirst, hsecond, hthird, hfourth, hfifth⟩ :=
    exists_five helements
  have hmem : left.render ≠ "mem" :=
    Item.render_ne (Item.isSource_of_isOperand hleft) (by decide)
  rw [ofElements_of_tree (Item.isSource_of_isAssignable htarget) hfirst,
    ofOperator_arrow htarget hfirst hsecond, ofSources, Term.symbol?_of_tree hthird,
    if_neg (by simpa using hmem), comparands_of_tree hleft hright hthird hfourth hfifth]

theorem readsBack_jumpIf {op : Comparison} {left right : Item} {target : String}
    (h : (jumpIf op left right target).isWellFormed = true) :
    (jumpIf op left right target).ReadsBack := by
  intro whole elements helements
  simp only [isWellFormed, Bool.and_eq_true] at h
  obtain ⟨⟨hleft, hright⟩, htarget⟩ := h
  obtain ⟨first, second, third, fourth, fifth, rfl, hfirst, hsecond, hthird, hfourth, hfifth⟩ :=
    exists_five helements
  have hjump : ofElements whole [first, second, third, fourth, fifth] =
      ofJumpIf whole [first, second, third, fourth, fifth] := by
    rw [ofElements, Term.symbol?_of_tree hfirst]
    rfl
  rw [hjump, ofJumpIf, Term.labelName_of_tree htarget hfifth, Read.ok_bind,
    comparands_of_tree hleft hright hsecond hthird hfourth]

theorem readsBack_goto {target : String}
    (h : (goto target).isWellFormed = true) : (goto target).ReadsBack := by
  intro whole elements helements
  simp only [words, List.map_cons, List.map_nil, List.map_eq_cons_iff,
    List.map_eq_nil_iff] at helements
  obtain ⟨first, _, rfl, hfirst, second, _, rfl, hsecond, rfl⟩ := helements
  have hgoto : ofElements whole [first, second] = ofGoto whole [first, second] := by
    rw [ofElements, Term.symbol?_of_tree hfirst]
    rfl
  rw [hgoto, ofGoto, Term.labelName_of_tree h hsecond]
  rfl

theorem readsBack_ret : ret.ReadsBack := by
  intro whole elements helements
  simp only [words, List.map_cons, List.map_nil, List.map_eq_cons_iff,
    List.map_eq_nil_iff] at helements
  obtain ⟨first, _, rfl, hfirst, rfl⟩ := helements
  rw [ofElements, Term.symbol?_of_tree hfirst]
  rfl

theorem readsBack_call {callee : Callee} {arguments : Int64}
    (h : (call callee arguments).isWellFormed = true) : (call callee arguments).ReadsBack := by
  intro whole elements helements
  simp only [isWellFormed, Bool.and_eq_true] at h
  obtain ⟨first, second, third, rfl, hfirst, hsecond, hthird⟩ := exists_three helements
  have hcall : ofElements whole [first, second, third] =
      ofCall whole [first, second, third] := by
    rw [ofElements, Term.symbol?_of_tree hfirst]
    rfl
  have hcount : third.numberWith (0 ≤ ·) .argumentCount = .ok arguments :=
    Term.numberWith_of_tree h.2 hthird
  rw [hcall, ofCall, hcount, Read.ok_bind, calleeOf_of_tree h.1 hsecond]
  rfl

theorem readsBack_step {target : Item} {direction : Step}
    (h : (step target direction).isWellFormed = true) : (step target direction).ReadsBack := by
  intro whole elements helements
  simp only [words, List.map_cons, List.map_nil, List.map_eq_cons_iff,
    List.map_eq_nil_iff] at helements
  obtain ⟨first, _, rfl, hfirst, rfl⟩ := helements
  rw [ofElements, Term.symbol?_of_tree hfirst]
  exact ofWord_step h direction

theorem readsBack_address {target base index : Item} {scale : Int64}
    (h : (address target base index scale).isWellFormed = true) :
    (address target base index scale).ReadsBack := by
  intro whole elements helements
  simp only [isWellFormed, Bool.and_eq_true] at h
  obtain ⟨⟨⟨htarget, hbase⟩, hindex⟩, hscale⟩ := h
  obtain ⟨first, second, third, fourth, fifth, rfl, hfirst, hsecond, hthird, hfourth, hfifth⟩ :=
    exists_five helements
  rw [ofElements_of_tree (Item.isSource_of_isAssignable htarget) hfirst,
    ofOperator_address hsecond, ofAddress, Term.writableItem_of_tree htarget hfirst,
    Term.writableItem_of_tree hbase hthird, Term.writableItem_of_tree hindex hfourth]
  dsimp only
  rw [Term.numberWith_of_tree (isScale_iff.2 hscale) hfifth]
  rfl

/-- **Well formed instructions other than labels are read from their words.** -/
theorem readsBack_of_isWellFormed {instruction : Instruction}
    (h : instruction.isWellFormed = true) (hlabel : ∀ name, instruction ≠ label name) :
    instruction.ReadsBack := by
  cases instruction with
  | assign => exact readsBack_assign h
  | stackArgument => exact readsBack_stackArgument h
  | arith => exact readsBack_arith h
  | shift => exact readsBack_shift h
  | memoryArith => exact readsBack_memoryArith h
  | compare => exact readsBack_compare h
  | jumpIf => exact readsBack_jumpIf h
  | label name => exact absurd rfl (hlabel name)
  | goto => exact readsBack_goto h
  | ret => exact readsBack_ret
  | call => exact readsBack_call h
  | step => exact readsBack_step h
  | address => exact readsBack_address h

/-- **A term that has the tree of a well formed instruction denotes it.** -/
theorem ofTerm_of_tree {instruction : Instruction} {term : Term}
    (h : instruction.isWellFormed = true) (htree : term.tree = instruction.tree) :
    ofTerm term = .ok instruction := by
  by_cases hlabel : ∃ name, instruction = label name
  · obtain ⟨name, rfl⟩ := hlabel
    have hitem : term.item? = some (.label name) := Term.item?_of_tree h htree
    obtain ⟨span, rfl⟩ := Term.tree_eq_leaf_iff.1 htree
    rw [ofTerm, hitem]
  · have hlabel' : ∀ name, instruction ≠ label name := fun name hname => hlabel ⟨name, hname⟩
    have hnode : instruction.tree = .node (instruction.words.map .leaf) := by
      cases instruction with
      | label name => exact absurd rfl (hlabel' name)
      | _ => rfl
    obtain ⟨elements, hterm, helements⟩ := exists_elements (htree.trans hnode)
    rw [hterm, readsBack_of_isWellFormed h hlabel' term elements helements]

end Instruction

/-! ### Functions and programs -/

theorem Read.all_map_ok {α : Type} (list : List α) :
    Read.all (list.map Except.ok) = (.ok list : Read (List α)) := by
  have hissues : ((list.map Except.ok : List (Read α)).all (·.issues.isEmpty)) = true := by
    simp
  have hvalues : (value? ∘ Except.ok : α → Option α) = some := rfl
  rw [Read.all, if_pos hissues, List.filterMap_map, hvalues, List.filterMap_some]

/-- Terms with the trees of some values are read as the values, if each one is. -/
theorem map_of_trees {α : Type} {ofTerm : Term → Read α} {tree : α → Tree} {list : List α}
    (hread : ∀ a ∈ list, ∀ term : Term, term.tree = tree a → ofTerm term = .ok a)
    {terms : List Term} (hterms : terms.map Term.tree = list.map tree) :
    terms.map ofTerm = list.map Except.ok := by
  induction list generalizing terms with
  | nil =>
      rw [List.map_nil, List.map_eq_nil_iff] at hterms
      rw [hterms]
      rfl
  | cons a list ih =>
      rw [List.map_cons, List.map_eq_cons_iff] at hterms
      obtain ⟨term, rest, rfl, hterm, hrest⟩ := hterms
      rw [List.map_cons, List.map_cons, hread a (List.mem_cons_self ..) term hterm,
        ih (fun b hb => hread b (List.mem_cons_of_mem _ hb)) hrest]

/-- **A term that has the tree of a well formed function denotes it.** -/
theorem Function.ofTerm_of_tree {function : Function} {term : Term} (h : function.WellFormed)
    (htree : term.tree = function.tree) : Function.ofTerm term = .ok function := by
  obtain ⟨span, elements, rfl, helements⟩ := Term.tree_eq_node_iff.1 htree
  simp only [List.map_eq_cons_iff] at helements
  obtain ⟨name, _, rfl, hname, arity, body, rfl, harity, hbody⟩ := helements
  have hcount : arity.numberWith (0 ≤ ·) .functionArity = .ok function.arity :=
    Term.numberWith_of_tree (decide_eq_true h.arity) harity
  have hcode : body.map Instruction.ofTerm = function.code.map Except.ok :=
    map_of_trees (fun instruction hmem term => Instruction.ofTerm_of_tree (h.code instruction hmem))
      hbody
  rw [Function.ofTerm, Term.functionName_of_tree h.name hname, Read.ok_bind, hcount, Read.ok_bind,
    hcode, Read.all_map_ok, Read.ok_bind, ofCode, ← h.locals]

/-- **The text of a well formed function is read back.** -/
theorem Function.read_render {function : Function} (h : function.WellFormed) :
    Function.read function.render.toList = .ok function := by
  obtain ⟨term, hterm, htree⟩ := Term.readOne_of_marks (Function.spells_render h).marks_eq
  rw [Function.read, Read.one, hterm]
  exact Function.ofTerm_of_tree h htree

namespace Program

/-- Terms with the trees of well formed functions are read as the functions, if their names differ
from each other and from those of the functions before them. -/
theorem functionsOf_of_trees {known functions : List Function} {terms : List Term}
    (h : ∀ function ∈ functions, function.WellFormed)
    (hnodup : ((known ++ functions).map Function.name).Nodup)
    (hterms : terms.map Term.tree = functions.map Function.tree) :
    functionsOf known terms = functions.map Except.ok := by
  induction functions generalizing known terms with
  | nil =>
      rw [List.map_nil, List.map_eq_nil_iff] at hterms
      rw [hterms]
      rfl
  | cons function functions ih =>
      rw [List.map_cons, List.map_eq_cons_iff] at hterms
      obtain ⟨term, rest, rfl, hterm, hrest⟩ := hterms
      have hnew : ¬ known.any (·.name == function.name) = true := by
        rw [List.any_eq_true]
        rintro ⟨other, hother, hname⟩
        rw [List.map_append, List.nodup_append] at hnodup
        exact hnodup.2.2 _ (List.mem_map_of_mem hother) function.name (by simp) (beq_iff_eq.1 hname)
      have hread : functionsOf (known ++ [function]) rest = functions.map Except.ok :=
        ih (fun f hf => h f (List.mem_cons_of_mem _ hf)) (by simpa using hnodup) hrest
      rw [functionsOf, Function.ofTerm_of_tree (h function (List.mem_cons_self ..)) hterm]
      simp only [hnew, hread, List.map_cons, Bool.false_eq_true, if_false]

/-- **A term that has the tree of a well formed program denotes it.** -/
theorem ofTerm_of_tree {program : Program} {term : Term} (h : program.WellFormed)
    (htree : term.tree = program.tree) : Program.ofTerm term = .ok program := by
  obtain ⟨span, elements, rfl, helements⟩ := Term.tree_eq_node_iff.1 htree
  rw [List.map_eq_cons_iff] at helements
  obtain ⟨entry, rest, rfl, hentry, hrest⟩ := helements
  have hfunctions : functionsOf [] rest = program.functions.map Except.ok :=
    functionsOf_of_trees h.functions h.distinct hrest
  have hfind : (program.find? program.entry).isSome = true := by
    obtain ⟨function, hmem, hname⟩ := List.mem_map.1 h.entry_mem
    exact List.find?_isSome.2 ⟨function, hmem, beq_iff_eq.2 hname⟩
  rw [Program.ofTerm, Term.functionName_of_tree h.entry hentry, Read.ok_bind, hfunctions,
    Read.all_map_ok, Read.ok_bind]
  exact if_pos hfind

/-- **The text of a well formed program is read back.** -/
theorem read_render {program : Program} (h : program.WellFormed) :
    Program.read program.render.toList = .ok program := by
  obtain ⟨term, hterm, htree⟩ := Term.readOne_of_marks (Program.spells_render h).marks_eq
  rw [Program.read, Read.one, hterm]
  exact ofTerm_of_tree h htree

end Program

/-! ### The grammar -/

/-- **Exactly the well formed functions and programs can be read, and each of them from its own
text.** -/
theorem reading_inverts_rendering (function : Function) (program : Program) :
    ((∃ text, Function.read text = .ok function) ↔ function.WellFormed) ∧
      (Function.read function.render.toList = .ok function ↔ function.WellFormed) ∧
      ((∃ text, Program.read text = .ok program) ↔ program.WellFormed) ∧
      (Program.read program.render.toList = .ok program ↔ program.WellFormed) := by
  have hfunction : (∃ text, Function.read text = .ok function) → function.WellFormed :=
    fun h => Function.IsParsed.wellFormed (Or.inl h)
  have hprogram : (∃ text, Program.read text = .ok program) → program.WellFormed :=
    fun ⟨_, h⟩ => Program.wellFormed_of_read h
  refine ⟨⟨hfunction, ?_⟩, ⟨fun h => hfunction ⟨_, h⟩, Function.read_render⟩, ⟨hprogram, ?_⟩,
    ⟨fun h => hprogram ⟨_, h⟩, Program.read_render⟩⟩
  · exact fun h => ⟨_, Function.read_render h⟩
  · exact fun h => ⟨_, Program.read_render h⟩

/-- A function with instructions of all kinds and with extreme numbers. -/
def assorted : Function := Function.ofCode "assorted" 2
  [.label "top", .assign (.var "x") (.number Int64.minValue),
    .assign (.var "f") (.function "assorted"),
    .assign (.register "rax") (.memory (.register "rsp") 8),
    .assign (.memory (.var "x") (-8)) (.label "top"), .stackArgument (.register "rbx") (-3),
    .arith .mul (.var "x") (.register "rsp"), .shift .left (.var "x") (.register "rcx"),
    .memoryArith .add (.memory (.register "rsp") 0) (.number Int64.maxValue),
    .memoryArith .sub (.var "x") (.memory (.var "f") 16),
    .compare (.register "rdi") .lessOrEqual (.var "x") (.number 0),
    .jumpIf .equal (.register "rdi") (.number 1) "top", .goto "top",
    .call (.code (.var "f")) 2, .call (.service .tupleError) 3, .step (.var "x") .down,
    .address (.var "x") (.var "f") (.register "rax") 4, .ret]

theorem assorted_reads_back :
    Function.read assorted.render.toList = .ok assorted ∧
      Program.read (Program.render ⟨"assorted", [assorted]⟩).toList =
        .ok ⟨"assorted", [assorted]⟩ := by
  have hfunction : assorted.WellFormed := by decide +kernel
  have hprogram : (Program.mk "assorted" [assorted]).WellFormed := by decide +kernel
  obtain ⟨-, hread, -, hreadProgram⟩ :=
    reading_inverts_rendering assorted ⟨"assorted", [assorted]⟩
  exact ⟨hread.2 hfunction, hreadProgram.2 hprogram⟩

end RegisterColouring
