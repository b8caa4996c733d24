/-
**Terms.**

The concrete form of a source text is a sequence of terms: a term is a symbol or a parenthesised list
of terms.  Each term knows the span of text it was read from.

Main definitions:

* `RegisterColouring.Term` — symbols and lists, with their spans;
* `RegisterColouring.Term.render` — the text of a term, elements separated by one space;
* `RegisterColouring.Term.outline` — the nodes of a term in preorder;
* `RegisterColouring.Term.symbolAt`, `RegisterColouring.Term.matchesSymbols` — the symbols among the
  elements of a list.
-/

import RegisterColouring.Text.Source

set_option autoImplicit false

namespace RegisterColouring

/-- A symbol, or a list of terms in parentheses. -/
inductive Term where
  | symbol (span : Span) (value : String)
  | list (span : Span) (elements : List Term)
  deriving Repr

namespace Term

/-- The text a term was read from. -/
def span : Term → Span
  | symbol span _ => span
  | list span _ => span

/-- The value of a symbol. -/
def symbol? : Term → Option String
  | symbol _ value => some value
  | list _ _ => none

@[simp] theorem span_symbol (s : Span) (value : String) : (symbol s value).span = s := rfl

@[simp] theorem span_list (s : Span) (elements : List Term) : (list s elements).span = s := rfl

/-! ### Text -/

mutual

/-- **The text of a term.** -/
def render : Term → String
  | symbol _ value => value
  | list _ elements => "(" ++ renderAll elements ++ ")"

/-- The texts of terms, with a space between neighbours. -/
def renderAll : List Term → String
  | [] => ""
  | [term] => render term
  | term :: terms => render term ++ " " ++ renderAll terms

end

/-! ### Outline -/

/-- One node of a term: how deep it lies, its span, and either the value of a symbol or the number of
elements of a list. -/
structure Node where
  depth : Nat
  span : Span
  content : String ⊕ Nat
  deriving DecidableEq, Repr

mutual

/-- The nodes of a term in preorder, the term itself at the given depth. -/
def outline (depth : Nat) : Term → List Node
  | symbol span value => [⟨depth, span, .inl value⟩]
  | list span elements => ⟨depth, span, .inr elements.length⟩ :: outlineAll (depth + 1) elements

/-- The nodes of terms, each in preorder, one term after the other. -/
def outlineAll (depth : Nat) : List Term → List Node
  | [] => []
  | term :: terms => outline depth term ++ outlineAll depth terms

end

/-! ### Symbols among the elements of a list -/

/-- The symbol at a position of a list of terms; the empty text if there is no term or a list. -/
def symbolAt (elements : List Term) (i : Nat) : String :=
  (elements[i]?.bind symbol?).getD ""

/-- The symbol at a position that may be negative; nothing before the first element. -/
def symbolAt? (elements : List Term) (i : Int) : Option String :=
  if i < 0 then none else some (symbolAt elements i.toNat)

/-- The element at a position that may be negative or past the end. -/
def elementAt? (elements : List Term) (i : Int) : Option Term :=
  if i < 0 then none else elements[i.toNat]?

/-- Whether a list has `n` elements and the given symbols at the given positions; nothing if it has
`n` elements and a position is negative. -/
def matchesSymbols (elements : List Term) (n : Int) (symbols : List (Int × String)) : Option Bool :=
  if (elements.length : Int) ≠ n then some false
  else if symbols.any (·.1 < 0) then none
  else some (symbols.all fun (i, expected) => symbolAt elements i.toNat == expected)

@[simp] theorem symbolAt_nil (i : Nat) : symbolAt [] i = "" := by simp [symbolAt]

@[simp] theorem symbolAt_cons_zero (term : Term) (terms : List Term) :
    symbolAt (term :: terms) 0 = term.symbol?.getD "" := by simp [symbolAt]

@[simp] theorem symbolAt_cons_succ (term : Term) (terms : List Term) (i : Nat) :
    symbolAt (term :: terms) (i + 1) = symbolAt terms i := by simp [symbolAt]

end Term

end RegisterColouring
