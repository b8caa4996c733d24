/-
**Reading L2.**

Programs, functions and spill requests are read from terms.  Reading yields a value or the issues that
stand in the way, in the order of the text: every function and every instruction is read on its own,
so one bad instruction does not hide the next.

Main definitions:

* `RegisterColouring.Instruction.ofTerm` — the instruction that a term denotes;
* `RegisterColouring.Function.ofTerm`, `RegisterColouring.Program.ofTerm` — functions and programs;
* `RegisterColouring.Function.read`, `RegisterColouring.Program.read`,
  `RegisterColouring.SpillRequest.read` — the same from the characters of a text.
-/

import RegisterColouring.Code.Function
import RegisterColouring.Code.Symbol
import RegisterColouring.Term.Reader

set_option autoImplicit false

namespace RegisterColouring

/-! ### Results with issues -/

/-- A value that was read, or the issues that stand in its way. -/
abbrev Read (α : Type) := Except (List Issue) α

namespace Read

variable {α β : Type}

/-- The issues of a result. -/
def issues : Read α → List Issue
  | .ok _ => []
  | .error issues => issues

/-- The value of a result. -/
def value? : Read α → Option α
  | .ok value => some value
  | .error _ => none

/-- A single complaint about a term. -/
def refuse (term : Term) (complaint : Complaint) : Read α := .error [⟨term.span, complaint⟩]

/-- All values, or the issues of all results in order. -/
def all (results : List (Read α)) : Read (List α) :=
  if results.all (·.issues.isEmpty) then .ok (results.filterMap value?)
  else .error (results.flatMap issues)

@[simp] theorem issues_ok (value : α) : issues (.ok value : Read α) = [] := rfl

@[simp] theorem issues_error (list : List Issue) : issues (.error list : Read α) = list := rfl

@[simp] theorem value?_ok (value : α) : value? (.ok value : Read α) = some value := rfl

end Read

open Read (refuse)

/-! ### Operands -/

/-- The item that a term denotes; a list denotes none. -/
def Term.item? (term : Term) : Option Item := term.symbol?.bind Item.ofSymbol?

/-- The item that a term denotes, if it satisfies a test; otherwise a complaint. -/
def Term.itemWith (test : Item → Bool) (complaint : Complaint) (term : Term) : Read Item :=
  match term.item? with
  | some item => if test item then .ok item else refuse term complaint
  | none => refuse term complaint

/-- The label that a term denotes. -/
def Term.labelName (term : Term) : Read String :=
  match term.item? with
  | some (.label name) => .ok name
  | _ => refuse term .label

/-- The variable that a term denotes. -/
def Term.variableName (term : Term) : Read String :=
  match term.item? with
  | some (.var name) => .ok name
  | _ => refuse term .variableName

/-- The function name that a term denotes. -/
def Term.functionName (complaint : Complaint) (term : Term) : Read String :=
  match term.item? with
  | some (.function name) => .ok name
  | _ => refuse term complaint

/-- The number that a term denotes, if it satisfies a test. -/
def Term.numberWith (test : Int64 → Bool) (complaint : Complaint) (term : Term) : Read Int64 :=
  match term.item? with
  | some (.number value) => if test value then .ok value else refuse term complaint
  | _ => refuse term complaint

/-- The comparison that a term denotes. -/
def Term.comparison (term : Term) : Read Comparison :=
  match term.symbol?.bind Comparison.ofText? with
  | some op => .ok op
  | none => refuse term .comparison

/-- A term that denotes something to compute with. -/
def Term.valueItem : Term → Read Item := Term.itemWith Item.isValue .value

/-- A term that denotes something that can be assigned to. -/
def Term.writableItem : Term → Read Item := Term.itemWith Item.isWritable .registerOrVariable

/-- The memory cell that a base and an offset denote. -/
def Term.memoryItem (base offset : Term) : Read Item := do
  let base ← base.itemWith Item.isBase .registerOrVariable
  let offset ← offset.numberWith (· % 8 == 0) .misalignedOffset
  .ok (.memory base offset)

/-! ### Instructions -/

namespace Instruction

/-- The operands of a comparison, with the issues of all three parts. -/
def comparands (left op right : Term) (make : Item → Comparison → Item → Instruction) :
    Read Instruction :=
  match left.valueItem, op.comparison, right.valueItem with
  | .ok left, .ok op, .ok right => .ok (make left op right)
  | left, op, right => .error (left.issues ++ op.issues ++ right.issues)

/-- An instruction of one word: a return, or a step up or down. -/
def ofWord (whole : Term) (word : String) : Read Instruction :=
  if word = "return" then .ok .ret
  else match word.toList.reverse with
    | '+' :: '+' :: rest => stepped rest .up
    | '-' :: '-' :: rest => stepped rest .down
    | _ => refuse whole .unknownInstruction
where
  stepped (reversed : List Char) (direction : Step) : Read Instruction :=
    match Item.ofSymbol? (String.ofList reversed.reverse) with
    | some target =>
      if target.isWritable then .ok (.step target direction) else refuse whole .registerOrVariable
    | none => refuse whole .registerOrVariable

/-- A jump. -/
def ofGoto (whole : Term) : List Term → Read Instruction
  | [_, target] => do
    let target ← target.labelName
    .ok (.goto target)
  | _ => refuse whole .malformedGoto

/-- What a term in the place of a callee denotes. -/
def calleeOf (term : Term) : Read Callee :=
  match term.symbol?.bind Service.ofText? with
  | some service => .ok (.service service)
  | none =>
    match term.item? with
    | some (.function name) => .ok (.code (.function name))
    | some item => if item.isWritable then .ok (.code item) else refuse term .callee
    | none => refuse term .callee

/-- A call.  The number of arguments is looked at first. -/
def ofCall (whole : Term) : List Term → Read Instruction
  | [_, callee, arguments] => do
    let arguments ← arguments.numberWith (0 ≤ ·) .argumentCount
    let callee ← calleeOf callee
    .ok (.call callee arguments)
  | _ => refuse whole .malformedCall

/-- A conditional jump.  Its target is looked at first. -/
def ofJumpIf (whole : Term) : List Term → Read Instruction
  | [_, left, op, right, target] => do
    let target ← target.labelName
    comparands left op right fun left op right => .jumpIf op left right target
  | _ => refuse whole .malformedJump

/-- A store into memory, or arithmetic on a memory cell. -/
def ofMemory (whole : Term) : List Term → Read Instruction
  | [_, base, offset, op, source] => do
    let target ← Term.memoryItem base offset
    if op.symbol? = some "<-" then
      let source ← source.itemWith (fun _ => true) .source
      .ok (.assign target source)
    else match op.symbol?.bind ArithOp.ofText? with
      | some operator =>
        if operator.worksOnMemory then
          let source ← source.valueItem
          .ok (.memoryArith operator target source)
        else refuse op .unknownOperator
      | none => refuse op .unknownOperator
  | _ => refuse whole .malformedMemory

/-- What follows the arrow of an assignment. -/
def ofSources (whole : Term) (target : Item) : List Term → Read Instruction
  | [source] => do
    let source ← source.itemWith (fun _ => true) .source
    .ok (.assign target source)
  | [keyword, offset] =>
    if keyword.symbol? = some "stack-arg" then do
      let offset ← offset.numberWith (fun _ => true) .offset
      .ok (.stackArgument target offset)
    else refuse whole .malformedAssignment
  | [first, second, third] =>
    if first.symbol? = some "mem" then do
      let source ← Term.memoryItem second third
      .ok (.assign target source)
    else comparands first second third fun left op right => .compare target op left right
  | _ => refuse whole .malformedAssignment

/-- Arithmetic on a register or variable, with a value or, for addition and subtraction, a memory
cell. -/
def ofArith (whole : Term) (op : ArithOp) (target : Item) : List Term → Read Instruction
  | [source] => do
    let source ← source.valueItem
    .ok (.arith op target source)
  | [keyword, base, offset] =>
    if keyword.symbol? = some "mem" ∧ op.worksOnMemory then do
      let source ← Term.memoryItem base offset
      .ok (.memoryArith op target source)
    else refuse whole .malformedArithmetic
  | _ => refuse whole .malformedArithmetic

/-- What a shift can shift by: a number, a variable, or the one register that can hold an amount. -/
def isShiftAmount : Item → Bool
  | .number _ => true
  | .var _ => true
  | .register name => name == Register.shiftAmount
  | _ => false

/-- A shift. -/
def ofShift (whole target : Term) (op : ShiftOp) : List Term → Read Instruction
  | [amount] => do
    let target ← target.writableItem
    let amount ← amount.itemWith isShiftAmount .shiftAmount
    .ok (.shift op target amount)
  | _ => refuse whole .malformedShift

/-- The factors an address computation can scale its index by. -/
def isScale (value : Int64) : Bool := value == 1 || value == 2 || value == 4 || value == 8

/-- An address computation.  The three registers or variables share one complaint. -/
def ofAddress (whole target : Term) : List Term → Read Instruction
  | [base, index, scale] =>
    match target.writableItem, base.writableItem, index.writableItem with
    | .ok target, .ok base, .ok index => do
      let scale ← scale.numberWith isScale .scale
      .ok (.address target base index scale)
    | _, _, _ => refuse whole .registerOrVariable
  | _ => refuse whole .malformedAddress

/-- An instruction whose operator stands in second place. -/
def ofOperator (whole target op : Term) (rest : List Term) : Read Instruction :=
  let text := op.symbol?.getD ""
  if text = "<-" then do
    let target ← target.writableItem
    ofSources whole target rest
  else match ArithOp.ofText? text with
    | some operator => do
      let target ← target.writableItem
      ofArith whole operator target rest
    | none =>
      match ShiftOp.ofText? text with
      | some operator => ofShift whole target operator rest
      | none => if text = "@" then ofAddress whole target rest else refuse op .unknownOperator

/-- An instruction in parentheses. -/
def ofElements (whole : Term) (elements : List Term) : Read Instruction :=
  match elements with
  | [] => refuse whole .emptyInstruction
  | [word] => ofWord whole (word.symbol?.getD "")
  | first :: second :: rest =>
    let keyword := first.symbol?.getD ""
    if keyword = "goto" then ofGoto whole elements
    else if keyword = "call" then ofCall whole elements
    else if keyword = "cjump" then ofJumpIf whole elements
    else if keyword = "mem" then ofMemory whole elements
    else if rest.isEmpty then refuse whole .unknownInstruction
    else ofOperator whole first second rest

/-- **The instruction that a term denotes.** -/
def ofTerm (term : Term) : Read Instruction :=
  match term with
  | .symbol _ _ =>
    match term.item? with
    | some (.label name) => .ok (.label name)
    | _ => refuse term .labelOrInstruction
  | .list _ elements => ofElements term elements

end Instruction

/-! ### Functions, programs and spill requests -/

/-- **The function that a term denotes.** -/
def Function.ofTerm (term : Term) : Read Function :=
  match term with
  | .list _ (name :: arity :: body) => do
    let name ← name.functionName .functionName
    let arity ← arity.numberWith (0 ≤ ·) .functionArity
    let code ← Read.all (body.map Instruction.ofTerm)
    .ok (Function.ofCode name arity code)
  | _ => refuse term .function

/-- The functions that terms denote, after the ones that have been read; a function whose name has
been taken by an earlier one is refused. -/
def Program.functionsOf (known : List Function) : List Term → List (Read Function)
  | [] => []
  | term :: terms =>
    match Function.ofTerm term with
    | .error issues => .error issues :: functionsOf known terms
    | .ok function =>
      if known.any (·.name == function.name) then
        refuse term .duplicateFunction :: functionsOf known terms
      else .ok function :: functionsOf (known ++ [function]) terms

/-- **The program that a term denotes.** -/
def Program.ofTerm (term : Term) : Read Program :=
  match term with
  | .list _ (head :: rest) => do
    let entry ← head.functionName .entryName
    let functions ← Read.all (functionsOf [] rest)
    let program : Program := ⟨entry, functions⟩
    if (program.find? entry).isSome then .ok program else refuse head .unknownEntry
  | _ => refuse term .program

/-- The spill request that three terms denote. -/
def SpillRequest.ofTerms (function victim stem : Term) : Read SpillRequest :=
  match Function.ofTerm function, victim.variableName, stem.variableName with
  | .ok function, .ok victim, .ok stem => .ok ⟨function, victim, stem⟩
  | function, victim, stem => .error (function.issues ++ victim.issues ++ stem.issues)

/-- A single term of a text, handed on. -/
def Read.one {α : Type} (ofTerm : Term → Read α) (text : List Char) : Read α :=
  match Term.readOne text with
  | .ok term => ofTerm term
  | .error issue => .error [issue]

/-- **The function of a text.** -/
def Function.read (text : List Char) : Read Function := Read.one Function.ofTerm text

/-- **The program of a text.** -/
def Program.read (text : List Char) : Read Program := Read.one Program.ofTerm text

/-- **The spill request of a text.** -/
def SpillRequest.read (text : List Char) : Read SpillRequest :=
  match Term.readAll text with
  | .error issue => .error [issue]
  | .ok [function, victim, stem] => SpillRequest.ofTerms function victim stem
  | .ok _ => .error [⟨⟨0, text.length⟩, .spillRequest⟩]

end RegisterColouring
