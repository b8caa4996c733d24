/-
**Texts of code.**

The text of well formed code, as tokens.  An item is written as one word, or as three if it is a
memory cell, and an instruction as the words of its items and operators in parentheses.  No word
contains a blank, a parenthesis or a semicolon, so the text of an instruction, a function or a program
has the tokens of a tree.

Main definitions:

* `RegisterColouring.Item.words`, `RegisterColouring.Instruction.words` — the words in a text;
* `RegisterColouring.Instruction.tree`, `RegisterColouring.Function.tree`,
  `RegisterColouring.Program.tree` — the tree that a text denotes.

Main results:

* `RegisterColouring.Item.isWord_render` — the text of an item other than a memory cell is a word;
* `RegisterColouring.Instruction.spells_render`, `RegisterColouring.Function.spells_render`,
  `RegisterColouring.Program.spells_render` — **the text of well formed code spells its tree**.
-/

import RegisterColouring.Proofs.Numerals
import RegisterColouring.Proofs.TermText
import RegisterColouring.Proofs.WellFormed

set_option autoImplicit false

namespace RegisterColouring

/-! ### Letters -/

/-- A visible ASCII character other than a parenthesis or a semicolon can stand in a symbol. -/
theorem isSymbolLetter_of_visible {c : Char} (hlow : 32 < c.toNat) (hhigh : c.toNat < 127)
    (hopening : c ≠ '(') (hclosing : c ≠ ')') (hsemicolon : c ≠ ';') : isSymbolLetter c = true := by
  have hblank : isBlank c = false := by
    simp only [isBlank, Bool.or_eq_false_iff, Bool.and_eq_false_iff, decide_eq_false_iff_not,
      beq_eq_false_iff_ne]
    omega
  simp [isSymbolLetter, hopening, hclosing, hsemicolon, hblank]

theorem isSymbolLetter_of_isIdentifierRest {c : Char} (h : isIdentifierRest c = true) :
    isSymbolLetter c = true := by
  have hne : ∀ d, isIdentifierRest d = false → c ≠ d := by
    rintro d hd rfl
    rw [h] at hd
    exact absurd hd (by decide)
  have hrange : 32 < c.toNat ∧ c.toNat < 127 := by
    have hle : ∀ d e : Char, d ≤ c ∧ c ≤ e → d.toNat ≤ c.toNat ∧ c.toNat ≤ e.toNat :=
      fun _ _ h => h
    simp only [isIdentifierRest, isIdentifierStart, Bool.or_eq_true, Bool.and_eq_true,
      decide_eq_true_eq, beq_iff_eq] at h
    rcases h with ((rfl | h) | h) | h
    · decide
    all_goals
      have hbounds := hle _ _ h
      simp only [Char.reduceToNat] at hbounds
      omega
  exact isSymbolLetter_of_visible hrange.1 hrange.2 (hne '(' (by decide)) (hne ')' (by decide))
    (hne ';' (by decide))

theorem isSymbolLetter_of_isDigit {c : Char} (h : c.isDigit = true) : isSymbolLetter c = true := by
  apply isSymbolLetter_of_isIdentifierRest
  rw [isIdentifierRest, Bool.or_eq_true]
  exact Or.inr h

theorem isSymbolLetter_of_isIdentifier {name : List Char} (h : isIdentifier name = true) :
    ∀ c ∈ name, isSymbolLetter c = true := by
  cases name with
  | nil => simp
  | cons d name =>
      rw [isIdentifier, Bool.and_eq_true, List.all_eq_true] at h
      intro c hc
      apply isSymbolLetter_of_isIdentifierRest
      rcases List.mem_cons.1 hc with rfl | hc
      · rw [isIdentifierRest, h.1, Bool.true_or]
      · exact h.2 c hc

/-! ### Items -/

/-- A sigil and an identifier make a word. -/
theorem isWord_sigil {text : String} {c : Char} {name : List Char}
    (htext : text.toList = c :: name) (hc : isSymbolLetter c = true)
    (hname : isIdentifier name = true) : IsWord text := by
  rw [IsWord, htext]
  exact ⟨List.cons_ne_nil _ _, List.forall_mem_cons.2 ⟨hc, isSymbolLetter_of_isIdentifier hname⟩⟩

@[grind ←] theorem isWord_append {text more : String} (htext : IsWord text) (hmore : IsWord more) :
    IsWord (text ++ more) := by
  rw [IsWord, String.toList_append]
  refine ⟨by simp [htext.1], fun c hc => ?_⟩
  rcases List.mem_append.1 hc with hc | hc
  · exact htext.2 c hc
  · exact hmore.2 c hc

namespace Item

variable {item : Item}

theorem toList_label (name : String) : (label name).render.toList = ':' :: name.toList := by
  simp [render]

theorem toList_function (name : String) : (function name).render.toList = '@' :: name.toList := by
  simp [render]

@[grind ←] theorem isWord_number (value : Int64) : IsWord (number value).render := by
  obtain ⟨hne, hletters⟩ := Numeral.integer_letters value.toInt
  refine ⟨hne, fun c hc => ?_⟩
  rcases hletters c hc with hdigit | rfl
  · exact isSymbolLetter_of_isDigit hdigit
  · decide

/-- **The text of an item other than a memory cell is a word.** -/
@[grind ←] theorem isWord_render (h : item.isSource = true) : IsWord item.render := by
  cases item with
  | register name =>
      have hall : ∀ r ∈ Register.stackPointer :: Register.generalPurpose, IsWord r := by decide
      apply hall
      rw [render]
      simpa [isSource, isOperand, Register.isRegister] using h
  | var name => exact isWord_sigil (Name.toList_ofVariable name) (by decide) h
  | memory base offset => simp [isSource, isOperand] at h
  | number value => exact isWord_number value
  | label name => exact isWord_sigil (toList_label name) (by decide) h
  | function name => exact isWord_sigil (toList_function name) (by decide) h

/-- The words of an item: three for a memory cell, one for every other item. -/
def words : Item → List String
  | memory base offset => ["mem", base.render, (number offset).render]
  | item => [item.render]

theorem words_memory (base : Item) (offset : Int64) :
    (memory base offset).words = ["mem", base.render, (number offset).render] := rfl

theorem words_of_isSource (h : item.isSource = true) : item.words = [item.render] := by
  cases item with
  | memory base offset => simp [isSource, isOperand] at h
  | _ => rfl

theorem spells_of_isSource (h : item.isSource = true) :
    Spells item.render.toList (item.words.map Mark.word) := by
  rw [words_of_isSource h]
  exact Spells.word (isWord_render h)

theorem spells_of_isCell (h : item.isCell = true) :
    Spells item.render.toList (item.words.map Mark.word) := by
  cases item with
  | memory base offset =>
      obtain ⟨⟨hsource, -⟩, -⟩ := isCell_memory_iff.1 h
      have hmem : Spells "mem".toList [.word "mem"] := Spells.word (by decide)
      have hparts := Spells.intercalate (.cons hmem (.cons (Spells.word (isWord_render hsource))
        (.cons (Spells.word (isWord_number offset)) .nil)))
      simpa [words, render] using hparts
  | _ => simp [isCell] at h

end Item

/-! ### Instructions -/

@[grind ←] theorem ArithOp.isWord_render (op : ArithOp) : IsWord op.render := by
  cases op <;> decide

@[grind ←] theorem ShiftOp.isWord_render (op : ShiftOp) : IsWord op.render := by
  cases op <;> decide

@[grind ←] theorem Comparison.isWord_render (op : Comparison) : IsWord op.render := by
  cases op <;> decide

@[grind ←] theorem Step.isWord_render (direction : Step) : IsWord direction.render := by
  cases direction <;> decide

theorem Service.isWord_render (service : Service) : IsWord service.render := by
  cases service <;> decide

@[grind ←] theorem Callee.isWord_render {callee : Callee} (h : callee.isWellFormed = true) :
    IsWord callee.render := by
  cases callee with
  | service s => exact s.isWord_render
  | code address => exact Item.isWord_render (isSource_of_isWellFormed h)

namespace Instruction

/-- The words of an instruction. -/
def words : Instruction → List String
  | assign target source => target.words ++ "<-" :: source.words
  | stackArgument target offset =>
    [target.render, "<-", "stack-arg", (Item.number offset).render]
  | arith op target source => [target.render, op.render, source.render]
  | shift op target amount => [target.render, op.render, amount.render]
  | memoryArith op target source => target.words ++ op.render :: source.words
  | compare target op left right =>
    [target.render, "<-", left.render, op.render, right.render]
  | jumpIf op left right target =>
    ["cjump", left.render, op.render, right.render, (Item.label target).render]
  | label name => [(Item.label name).render]
  | goto target => ["goto", (Item.label target).render]
  | ret => ["return"]
  | call callee arguments => ["call", callee.render, (Item.number arguments).render]
  | step target direction => [target.render ++ direction.render]
  | address target base index scale =>
    [target.render, "@", base.render, index.render, (Item.number scale).render]

/-- **The tree that an instruction is written as**: a label by itself, every other instruction as a
list of words. -/
def tree : Instruction → Tree
  | label name => .leaf (Item.label name).render
  | instruction => .node (instruction.words.map .leaf)

/-- Texts that spell words, in parentheses. -/
theorem spells_form {parts : List String} {groups : List (List String)}
    (h : List.Forall₂ (fun part group => Spells part.toList (group.map Mark.word)) parts groups) :
    Spells (form parts).toList (Tree.node (groups.flatten.map .leaf)).marks := by
  have hparts := (Spells.intercalate (List.forall₂_map_right_iff.2 h)).parenthesised
  rw [Tree.marks, Tree.marksAll_map_leaf, List.map_flatten]
  simpa [form] using hparts

/-- Words in parentheses. -/
theorem spells_form_words {words : List String} (h : ∀ word ∈ words, IsWord word) :
    Spells (form words).toList (Tree.node (words.map .leaf)).marks := by
  have hwords : List.Forall₂ (fun part group => Spells part.toList (group.map Mark.word)) words
      (words.map fun word => [word]) := by
    rw [List.forall₂_map_right_iff, List.forall₂_same]
    exact fun word hword => Spells.word (h word hword)
  have hform := spells_form hwords
  rwa [← List.flatMap_def, List.flatMap_singleton'] at hform

/-- Two items that spell words, with an operator between them. -/
theorem spells_form_operator {target source : Item} {op : String}
    (htarget : Spells target.render.toList (target.words.map Mark.word)) (hop : IsWord op)
    (hsource : Spells source.render.toList (source.words.map Mark.word)) :
    Spells (form [target.render, op, source.render]).toList
      (Tree.node ((target.words ++ op :: source.words).map .leaf)).marks := by
  have hop' : Spells op.toList ([op].map Mark.word) := Spells.word hop
  simpa using spells_form (.cons htarget (.cons hop' (.cons hsource .nil)))

/-- **The text of a well formed instruction spells its tree.** -/
theorem spells_render {instruction : Instruction} (h : instruction.isWellFormed = true) :
    Spells instruction.render.toList instruction.tree.marks := by
  cases instruction with
  | label name =>
      rw [tree, Tree.marks]
      exact Spells.word (Item.isWord_render h)
  | assign target source =>
      simp only [isWellFormed, Bool.and_eq_true, Bool.or_eq_true] at h
      rcases h with ⟨htarget, hsource | hsource⟩ | ⟨htarget, hsource⟩
      · exact spells_form_operator (Item.spells_of_isSource (Item.isSource_of_isAssignable htarget))
          (by decide) (Item.spells_of_isSource hsource)
      · exact spells_form_operator (Item.spells_of_isSource (Item.isSource_of_isAssignable htarget))
          (by decide) (Item.spells_of_isCell hsource)
      · exact spells_form_operator (Item.spells_of_isCell htarget) (by decide)
          (Item.spells_of_isSource hsource)
  | memoryArith op target source =>
      simp only [isWellFormed, Bool.and_eq_true, Bool.or_eq_true] at h
      rcases h with ⟨-, ⟨htarget, hsource⟩ | ⟨htarget, hsource⟩⟩
      · exact spells_form_operator (Item.spells_of_isCell htarget) op.isWord_render
          (Item.spells_of_isSource (Item.isSource_of_isOperand hsource))
      · exact spells_form_operator (Item.spells_of_isSource (Item.isSource_of_isAssignable htarget))
          op.isWord_render (Item.spells_of_isCell hsource)
  | _ =>
      -- Every other instruction has one word for each operand, and fixed words between them.
      have hfixed : ∀ word ∈ ["<-", "@", "stack-arg", "goto", "call", "cjump", "return"],
          IsWord word := by decide
      refine spells_form_words ?_
      simp only [isWellFormed, Bool.and_eq_true] at h
      simp only [List.forall_mem_cons] at hfixed ⊢
      grind [Item.isSource]

end Instruction

/-! ### Functions and programs -/

/-- The tree that a function is written as. -/
def Function.tree (function : Function) : Tree :=
  .node (.leaf (Item.function function.name).render ::
    .leaf (Item.number function.arity).render :: function.code.map Instruction.tree)

/-- The tree that a program is written as. -/
def Program.tree (program : Program) : Tree :=
  .node (.leaf (Item.function program.entry).render :: program.functions.map Function.tree)

/-- **The text of a well formed function spells its tree.** -/
theorem Function.spells_render {function : Function} (h : function.WellFormed) :
    Spells function.render.toList function.tree.marks := by
  have hcode : Spells (String.join
      (function.code.map fun instruction => "\t" ++ instruction.render ++ "\n")).toList
      (function.code.flatMap fun instruction => instruction.tree.marks) := by
    refine Spells.lines ?_
    intro instruction hmem
    rw [String.toList_append]
    exact (Instruction.spells_render (h.code instruction hmem)).cons_blank (by decide)
  have hname : IsWord (Item.function function.name).render := Item.isWord_render h.name
  have harity := (Spells.word (Item.isWord_number function.arity)).append_blank (c := '\n')
    (by decide) hcode
  have hall := ((Spells.word hname).append_blank (c := '\n') (by decide)
    (harity.cons_blank (c := '\t') (by decide))).parenthesised
  simpa [tree, Tree.marks, Tree.marksAll, Tree.marksAll_eq_flatMap, render, List.flatMap_map]
    using hall

/-- **The text of a well formed program spells its tree.** -/
theorem Program.spells_render {program : Program} (h : program.WellFormed) :
    Spells program.render.toList program.tree.marks := by
  have hfunctions : Spells (String.join
      (program.functions.map fun function => function.render ++ "\n")).toList
      (program.functions.flatMap fun function => function.tree.marks) :=
    Spells.lines fun function hmem => Function.spells_render (h.functions function hmem)
  have hentry : IsWord (Item.function program.entry).render := Item.isWord_render h.entry
  have hall := ((Spells.word hentry).append_blank (c := '\n') (by decide)
    hfunctions).parenthesised
  simpa [tree, Tree.marks, Tree.marksAll, Tree.marksAll_eq_flatMap, render, List.flatMap_map]
    using hall

end RegisterColouring
