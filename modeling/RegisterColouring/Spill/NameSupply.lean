/-
**Fresh names.**

Temporaries are named by a stem and a number.  A supply hands out the names with increasing numbers
and leaves out those that are taken.  Since different numbers give different names, among the first
`n + 1` candidates there is one that is not among `n` taken names.

Main definitions:

* `RegisterColouring.NameSupply` — a stem, the next number, and the taken names;
* `RegisterColouring.NameSupply.fresh` — the next free name;
* `RegisterColouring.NameSupply.freshMany` — several free names in a row.
-/

import RegisterColouring.Code.Item

set_option autoImplicit false

namespace RegisterColouring

/-- A supply of names for temporaries.  Stem and taken names are without sigil. -/
structure NameSupply where
  stem : String
  next : Nat
  taken : List String
  deriving DecidableEq, Repr

namespace NameSupply

/-- The supply with a stem that avoids some names; one leading sigil of each is dropped. -/
def ofTaken (stem : String) (taken : List String) : NameSupply :=
  ⟨Name.unsigiled stem, 0, taken.map Name.unsigiled⟩

/-- The candidate with a given number. -/
def candidate (supply : NameSupply) (n : Nat) : String := supply.stem ++ Numeral.natural n

/-- The first number from `n` on whose candidate is not taken, after at most `tries` that are. -/
def freeFrom (supply : NameSupply) : (tries n : Nat) → Nat
  | 0, n => n
  | tries + 1, n =>
    if supply.taken.contains (supply.candidate n) then supply.freeFrom tries (n + 1) else n

/-- The number of the next free name. -/
def nextFree (supply : NameSupply) : Nat := supply.freeFrom supply.taken.length supply.next

/-- **The next free name**, and the supply after it. -/
def fresh (supply : NameSupply) : String × NameSupply :=
  (supply.candidate supply.nextFree, { supply with next := supply.nextFree + 1 })

/-- The last of several free names in a row, at least one, and the supply after it. -/
def freshMany (supply : NameSupply) : Nat → String × NameSupply
  | 0 => supply.fresh
  | 1 => supply.fresh
  | n + 2 => supply.fresh.2.freshMany (n + 1)

@[simp] theorem stem_fresh (supply : NameSupply) : supply.fresh.2.stem = supply.stem := rfl

@[simp] theorem taken_fresh (supply : NameSupply) : supply.fresh.2.taken = supply.taken := rfl

end NameSupply

end RegisterColouring
