/-
**Numerals.**

Whole numbers are written in decimal, with a minus sign if negative, and read back from an optional
sign and a nonempty run of ASCII digits.  Reading into a machine word can fail in two ways: the text
is no numeral, or the number it denotes does not fit; in the second case the nearest word is known.
The reader goes from left to right and reports the first of the two that it meets.

Main definitions:

* `RegisterColouring.Numeral.natural`, `RegisterColouring.Numeral.integer` — decimal text;
* `RegisterColouring.Numeral.word64` — an unsigned 64-bit word from digits in a given base;
* `RegisterColouring.Numeral.int64` — a signed 64-bit word from decimal text;
* `RegisterColouring.Numeral.literal` — an unsigned word from a literal that may name its base and
  group its digits.
-/

set_option autoImplicit false

namespace RegisterColouring

namespace Numeral

/-! ### Writing -/

/-- The decimal text of a natural number. -/
def natural (n : Nat) : String := String.ofList (Nat.toDigits 10 n)

/-- The decimal text of an integer. -/
def integer : Int → String
  | .ofNat n => natural n
  | .negSucc n => "-" ++ natural (n + 1)

@[simp] theorem toList_natural (n : Nat) : (natural n).toList = Nat.toDigits 10 n := by
  simp [natural]

/-! ### Reading -/

/-- Why a text is not a word: it is no numeral, or its number is out of range, with the nearest
word. -/
inductive Fault (α : Type) where
  | malformed
  | outOfRange (nearest : α)
  deriving DecidableEq, Repr

/-- The value of a digit in bases up to 36, letters in either case. -/
def digit? (c : Char) : Option Nat :=
  if '0' ≤ c && c ≤ '9' then some (c.toNat - '0'.toNat)
  else if 'a' ≤ c && c ≤ 'z' then some (c.toNat - 'a'.toNat + 10)
  else if 'A' ≤ c && c ≤ 'Z' then some (c.toNat - 'A'.toNat + 10)
  else none

/-- One more digit after the number `n`, within an unsigned 64-bit word. -/
def push (base n : Nat) (c : Char) : Except (Fault Nat) Nat :=
  match digit? c with
  | none => .error .malformed
  | some d =>
    if base ≤ d then .error .malformed
    else if UInt64.size ≤ n * base + d then .error (.outOfRange (UInt64.size - 1))
    else .ok (n * base + d)

/-- The digits of an unsigned 64-bit word, read after the number `n`. -/
def word64From (base : Nat) : Nat → List Char → Except (Fault Nat) Nat
  | n, [] => .ok n
  | n, c :: cs =>
    match push base n c with
    | .ok n => word64From base n cs
    | .error e => .error e

/-- An unsigned 64-bit word from a nonempty run of digits. -/
def word64 (base : Nat) : List Char → Except (Fault Nat) Nat
  | [] => .error .malformed
  | cs => word64From base 0 cs

/-- A magnitude with a sign as a signed word, if it fits. -/
def signed (negative : Bool) (magnitude : Nat) : Except (Fault Int64) Int64 :=
  if negative then
    if -(magnitude : Int) < Int64.minValue.toInt then .error (.outOfRange Int64.minValue)
    else .ok (Int64.ofInt (-(magnitude : Int)))
  else
    if Int64.maxValue.toInt < magnitude then .error (.outOfRange Int64.maxValue)
    else .ok (Int64.ofInt magnitude)

/-- The sign in front of a numeral, if there is one, and what follows it. -/
def sign : List Char → Bool × List Char
  | '+' :: cs => (false, cs)
  | '-' :: cs => (true, cs)
  | cs => (false, cs)

/-- **A signed 64-bit word from decimal text.** -/
def int64 (cs : List Char) : Except (Fault Int64) Int64 :=
  match word64 10 (sign cs).2 with
  | .ok n => signed (sign cs).1 n
  | .error .malformed => .error .malformed
  | .error (.outOfRange n) => signed (sign cs).1 n

/-- The signed word that a text denotes exactly. -/
def int64? (cs : List Char) : Option Int64 := (int64 cs).toOption

/-! ### Literals that name their base -/

/-- The base a literal names, and its digits.  A leading zero alone names base eight. -/
def literalBase : List Char → Nat × List Char
  | '0' :: b :: c :: cs =>
    if b = 'b' || b = 'B' then (2, c :: cs)
    else if b = 'o' || b = 'O' then (8, c :: cs)
    else if b = 'x' || b = 'X' then (16, c :: cs)
    else (8, b :: c :: cs)
  | '0' :: cs => (8, cs)
  | cs => (10, cs)

/-- Every group mark `_` stands after a digit and before another; `afterDigit` says whether a digit
or the name of a base has just been read. -/
def groupedAfter : Bool → List Char → Bool
  | _, [] => true
  | _, ['_'] => false
  | afterDigit, '_' :: c :: cs => afterDigit && c != '_' && groupedAfter true (c :: cs)
  | _, _ :: cs => groupedAfter true cs

/-- The group marks of a literal are well placed.  The name of a base counts as a digit. -/
def grouped (cs : List Char) : Bool :=
  groupedAfter (cs.head? == some '0') (literalBase cs).2

/-- **An unsigned 64-bit word from a literal**: decimal, or in the base that `0b`, `0o`, `0x` or a
leading zero names, its digits grouped by `_` at will. -/
def literal (cs : List Char) : Except (Fault Nat) Nat :=
  if cs.isEmpty then .error .malformed
  else match word64From (literalBase cs).1 0 ((literalBase cs).2.filter (· != '_')) with
    | .ok n => if grouped cs then .ok n else .error .malformed
    | .error e => .error e

end Numeral

end RegisterColouring
