/-
**Characters of a byte sequence.**

A source file is a sequence of bytes, and everything that is said about it afterwards is said about
its characters.  This module turns the one into the other.  A byte that belongs to no well-formed
UTF-8 sequence is read as one replacement character of its own, so decoding never fails and never
yields more characters than there are bytes.

Main definitions:

* `RegisterColouring.Utf8.scalar?` — the character whose encoding starts with a given byte, and how
  many further bytes it takes;
* `RegisterColouring.Utf8.decode` — the characters of a byte sequence.

Main results:

* `RegisterColouring.Utf8.length_decode_le` — decoding never lengthens a sequence.
-/

set_option autoImplicit false

namespace RegisterColouring

namespace Utf8

/-- The character that stands for a byte outside every well-formed sequence. -/
def replacement : Char := '�'

/-- A byte lies between two bounds, both included. -/
def within (low high : Nat) (byte : UInt8) : Bool :=
  low ≤ byte.toNat && byte.toNat ≤ high

/-- A byte that continues a sequence started earlier. -/
def isContinuation (byte : UInt8) : Bool := within 0x80 0xBF byte

/-- The six bits a continuation byte carries. -/
def payload (byte : UInt8) : Nat := byte.toNat - 0x80

/-- The smallest byte that may follow `lead`: a smaller one would encode a code point that has a
shorter sequence. -/
def secondLow (lead : UInt8) : Nat :=
  if lead = 0xE0 then 0xA0 else if lead = 0xF0 then 0x90 else 0x80

/-- The greatest byte that may follow `lead`: a greater one would encode a surrogate or leave the
range of code points. -/
def secondHigh (lead : UInt8) : Nat :=
  if lead = 0xED then 0x9F else if lead = 0xF4 then 0x8F else 0xBF

/-- The character whose encoding starts with `lead` and goes on in `rest`, with the number of bytes
it takes from `rest`; nothing if no well-formed sequence starts there. -/
def scalar? (lead : UInt8) (rest : List UInt8) : Option (Char × Nat) :=
  if within 0 0x7F lead then some (Char.ofNat lead.toNat, 0)
  else match rest with
    | [] => none
    | b :: rest =>
      if within 0xC2 0xDF lead then
        if isContinuation b then
          some (Char.ofNat ((lead.toNat - 0xC0) * 64 + payload b), 1)
        else none
      else if !within (secondLow lead) (secondHigh lead) b then none
      else match rest with
        | [] => none
        | c :: rest =>
          if !isContinuation c then none
          else if within 0xE0 0xEF lead then
            some (Char.ofNat (((lead.toNat - 0xE0) * 64 + payload b) * 64 + payload c), 2)
          else if !within 0xF0 0xF4 lead then none
          else match rest with
            | [] => none
            | d :: _ =>
              if isContinuation d then
                some (Char.ofNat
                  ((((lead.toNat - 0xF0) * 64 + payload b) * 64 + payload c) * 64 + payload d), 3)
              else none

/-- The characters of a byte sequence whose first `skip` bytes belong to a character that has been
read already. -/
def decodeAfter : Nat → List UInt8 → List Char
  | _, [] => []
  | skip + 1, _ :: rest => decodeAfter skip rest
  | 0, lead :: rest =>
    match scalar? lead rest with
    | some (c, taken) => c :: decodeAfter taken rest
    | none => replacement :: decodeAfter 0 rest

/-- **The characters of a byte sequence**, one replacement character for each stray byte. -/
def decode (bytes : List UInt8) : List Char := decodeAfter 0 bytes

@[simp] theorem decode_nil : decode [] = [] := rfl

theorem length_decodeAfter_le (skip : Nat) (bytes : List UInt8) :
    (decodeAfter skip bytes).length ≤ bytes.length := by
  induction bytes generalizing skip with
  | nil => simp [decodeAfter]
  | cons lead rest ih =>
      cases skip with
      | succ skip => exact Nat.le_succ_of_le (ih skip)
      | zero =>
          simp only [decodeAfter]
          split
          · exact Nat.succ_le_succ (ih _)
          · exact Nat.succ_le_succ (ih _)

/-- Decoding never lengthens a sequence. -/
theorem length_decode_le (bytes : List UInt8) : (decode bytes).length ≤ bytes.length :=
  length_decodeAfter_le 0 bytes

end Utf8

end RegisterColouring
