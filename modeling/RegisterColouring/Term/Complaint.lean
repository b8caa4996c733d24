/-
**Complaints about a source text.**

Everything that can be wrong with the text of a program, a function or a spill request, and the words
for it.  An issue is a complaint together with the span it is about.

Main definitions:

* `RegisterColouring.Complaint`, `RegisterColouring.Complaint.message` — what is wrong, and how it is
  said;
* `RegisterColouring.Issue` — a complaint with its span.
-/

import RegisterColouring.Text.Source

set_option autoImplicit false

namespace RegisterColouring

/-- What can be wrong with a source text. -/
inductive Complaint where
  | endOfList
  | endOfFile
  | remainder
  | program
  | entryName
  | duplicateFunction
  | unknownEntry
  | function
  | functionName
  | functionArity
  | spillRequest
  | variableName
  | labelOrInstruction
  | emptyInstruction
  | unknownInstruction
  | unknownOperator
  | registerOrVariable
  | value
  | source
  | offset
  | misalignedOffset
  | comparison
  | label
  | argumentCount
  | callee
  | shiftAmount
  | scale
  | malformedGoto
  | malformedCall
  | malformedJump
  | malformedMemory
  | malformedAssignment
  | malformedArithmetic
  | malformedShift
  | malformedAddress
  deriving DecidableEq, Repr

/-- The words of a complaint. -/
def Complaint.message : Complaint → String
  | endOfList => "unexpected end-of-list"
  | endOfFile => "unexpected end-of-file"
  | remainder => "unexpected remainder"
  | program => "expected program"
  | entryName => "expected entry function name"
  | duplicateFunction => "duplicate function"
  | unknownEntry => "unknown entry function"
  | function => "expected function"
  | functionName => "expected function name"
  | functionArity => "expected function arity"
  | spillRequest => "expected function, variable and prefix"
  | variableName => "expected variable"
  | labelOrInstruction => "expected label or instruction"
  | emptyInstruction => "empty instruction"
  | unknownInstruction => "unknown instruction"
  | unknownOperator => "unknown operator"
  | registerOrVariable => "expected register or variable"
  | value => "expected register, variable or number"
  | source => "invalid source"
  | offset => "expected offset"
  | misalignedOffset => "offset must be a multiple of 8"
  | comparison => "expected comparison"
  | label => "expected label"
  | argumentCount => "expected number of arguments"
  | callee => "invalid callee"
  | shiftAmount => "shift amount must be rcx, a variable or a number"
  | scale => "scale must be 1, 2, 4 or 8"
  | malformedGoto => "malformed goto"
  | malformedCall => "malformed call"
  | malformedJump => "malformed cjump"
  | malformedMemory => "malformed memory instruction"
  | malformedAssignment => "malformed assignment"
  | malformedArithmetic => "malformed arithmetic"
  | malformedShift => "malformed shift"
  | malformedAddress => "malformed lea"

/-- A complaint about a span of a source text. -/
structure Issue where
  span : Span
  complaint : Complaint
  deriving DecidableEq, Repr

/-- The text of an issue, with its place in the source. -/
def Issue.report (source : Source) (issue : Issue) : String :=
  source.report issue.span issue.complaint.message

end RegisterColouring
