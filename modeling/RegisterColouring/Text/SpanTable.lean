/-
**Tables of spans.**

A table records where in a source text each of a number of keys was found.  A key is recorded once,
and only recorded keys can be asked for.

Main definitions:

* `RegisterColouring.SpanTable` with `put`, `has`, `get` and `report`;
* `RegisterColouring.SpanTable.Fault` — the two ways to misuse a table.
-/

import RegisterColouring.Text.Source

set_option autoImplicit false

namespace RegisterColouring

/-- Spans of a source text by key. -/
structure SpanTable where
  source : Source
  entries : List (String × Span)
  deriving DecidableEq, Repr

namespace SpanTable

/-- A key that is recorded twice, or asked for without having been recorded. -/
inductive Fault where
  | repeated (key : String)
  | missing (key : String)
  deriving DecidableEq, Repr

/-- The text of a fault. -/
def Fault.message : Fault → String
  | .repeated key => "source map key already exists: " ++ key
  | .missing key => "invalid source map key: " ++ key

/-- The table of a source text that records nothing. -/
def empty (source : Source) : SpanTable := ⟨source, []⟩

/-- Whether a key is recorded. -/
def has (table : SpanTable) (key : String) : Bool := (table.entries.lookup key).isSome

/-- The span of a recorded key. -/
def get (table : SpanTable) (key : String) : Except Fault Span :=
  match table.entries.lookup key with
  | some span => .ok span
  | none => .error (.missing key)

/-- Records a new key. -/
def put (table : SpanTable) (key : String) (span : Span) : Except Fault SpanTable :=
  if table.has key then .error (.repeated key)
  else .ok { table with entries := (key, span) :: table.entries }

/-- A message about a recorded key, with its place. -/
def report (table : SpanTable) (key message : String) : Except Fault String :=
  match table.get key with
  | .ok span => .ok (table.source.report span message)
  | .error fault => .error fault

@[simp] theorem has_empty (source : Source) (key : String) : (empty source).has key = false := rfl

end SpanTable

end RegisterColouring
