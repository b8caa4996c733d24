/-
**The vocabulary of a function.**

The names that a function can refer to are numbered: the general purpose registers come first, in the
order in which they are given out, and the function's variables follow in order of first occurrence.
Everything after this works with the numbers, and returns to the names for its answers.

Main definitions:

* `RegisterColouring.Vocabulary`, `RegisterColouring.Vocabulary.ofFunction` — numbered names;
* `RegisterColouring.Vocabulary.index?`, `RegisterColouring.Vocabulary.name` — from names to numbers and
  back;
* `RegisterColouring.Vocabulary.set` — the set of some names, or the first that is unknown;
* `RegisterColouring.Vocabulary.sorted` — the names in a set, alphabetically.
-/

import RegisterColouring.Code.Function
import RegisterColouring.Flow.IndexSet
import RegisterColouring.Text.Alphabetical

set_option autoImplicit false

namespace RegisterColouring

/-- Numbered names: a name's number is its position. -/
structure Vocabulary where
  names : List Name
  deriving DecidableEq, Repr

namespace Vocabulary

/-- The general purpose registers, followed by the given variables. -/
def ofVariables (vars : List String) : Vocabulary :=
  ⟨Register.generalPurpose ++ vars.eraseDups.map Name.ofVariable⟩

/-- **The vocabulary of a function.** -/
def ofFunction (function : Function) : Vocabulary := ofVariables function.vars

/-- How many names there are. -/
def size (vocabulary : Vocabulary) : Nat := vocabulary.names.length

/-- The name with a given number. -/
def name? (vocabulary : Vocabulary) (i : Nat) : Option Name := vocabulary.names[i]?

/-- The name with a given number; the empty text for a number that has none. -/
def name (vocabulary : Vocabulary) (i : Nat) : Name := (vocabulary.name? i).getD ""

/-- The number of a name. -/
def index? (vocabulary : Vocabulary) (name : Name) : Option Nat := vocabulary.names.idxOf? name

/-- The number of a general purpose register. -/
def isRegister (vocabulary : Vocabulary) (i : Nat) : Bool :=
  Register.isGeneralPurpose (vocabulary.name i)

/-- The numbers of all names. -/
def indices (vocabulary : Vocabulary) : List Nat := List.range vocabulary.size

/-- The numbers of some names, or the first name without a number. -/
def numbers (vocabulary : Vocabulary) : List Name → Except Name (List Nat)
  | [] => .ok []
  | name :: names =>
    match vocabulary.index? name with
    | none => .error name
    | some i =>
      match vocabulary.numbers names with
      | .ok rest => .ok (i :: rest)
      | .error unknown => .error unknown

/-- **The set of some names**, or the first name that is unknown. -/
def set (vocabulary : Vocabulary) (names : List Name) : Except Name IndexSet :=
  match vocabulary.numbers names with
  | .ok list => .ok (IndexSet.ofList list)
  | .error unknown => .error unknown

/-- The text of the fault of an unknown name. -/
def unknownName (name : Name) : String := "unknown name " ++ name

/-- The names of a set, by number. -/
def members (vocabulary : Vocabulary) (set : IndexSet) : List Name := set.toList.map vocabulary.name

/-- **The names of a set in alphabetical order.** -/
def sorted (vocabulary : Vocabulary) (set : IndexSet) : List Name :=
  alphabetical (vocabulary.members set)

/-- The numbers of the general purpose registers. -/
def registers (vocabulary : Vocabulary) : IndexSet :=
  IndexSet.ofList (vocabulary.indices.filter vocabulary.isRegister)

end Vocabulary

end RegisterColouring
