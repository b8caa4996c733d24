/-
**Numerals are read back.**

The decimal text of a number that fits into a word is a numeral, and reading it gives the number.
This holds up to both ends of the range: the reader collects digits into an unsigned word and looks
at the sign only afterwards, so the least signed word does not overflow on the way.

Main results:

* `RegisterColouring.Numeral.word64_toDigits` — the digits of an unsigned word are read back;
* `RegisterColouring.Numeral.int64?_integer` — **the text of a signed word is read back**;
* `RegisterColouring.Numeral.integer_letters` — which characters the text of an integer has.
-/

import RegisterColouring.Text.Numeral

set_option autoImplicit false

namespace RegisterColouring

namespace Numeral

/-! ### Digits -/

theorem digit?_digitChar : ∀ d < 10, digit? d.digitChar = some d := by decide

theorem push_digitChar {n d : Nat} (hd : d < 10) (hfits : n * 10 + d < UInt64.size) :
    push 10 n d.digitChar = .ok (n * 10 + d) := by
  simp only [push, digit?_digitChar d hd]
  rw [if_neg (by omega), if_neg (by omega)]

theorem word64From_append (base n : Nat) (front back : List Char) :
    word64From base n (front ++ back) =
      match word64From base n front with
      | .ok m => word64From base m back
      | .error e => .error e := by
  induction front generalizing n with
  | nil => rfl
  | cons c front ih =>
      simp only [List.cons_append, word64From]
      cases push base n c with
      | ok m => exact ih m
      | error e => rfl

/-- The digits of a number that fits are read one after the other. -/
theorem word64From_toDigits {n : Nat} (hfits : n < UInt64.size) :
    word64From 10 0 (Nat.toDigits 10 n) = .ok n := by
  -- all digits but the last are those of a tenth of the number
  induction n using Nat.strongRecOn with
  | ind n ih =>
      by_cases hn : n < 10
      · have hpush := push_digitChar (n := 0) hn (by omega)
        rw [Nat.toDigits_of_lt_base hn, word64From, hpush]
        simp [word64From]
      · have htenth := ih (n / 10) (by omega) (by omega)
        have hpush : push 10 (n / 10) (n % 10).digitChar = .ok n := by
          rw [push_digitChar (by omega) (by omega)]
          congr 1
          omega
        rw [Nat.toDigits_of_base_le (by decide) (by omega), word64From_append, htenth]
        simp only [word64From, hpush]

/-- **The digits of an unsigned word are read back.** -/
theorem word64_toDigits {n : Nat} (hfits : n < UInt64.size) :
    word64 10 (Nat.toDigits 10 n) = .ok n := by
  have hread := word64From_toDigits hfits
  cases hdigits : Nat.toDigits 10 n with
  | nil => exact absurd hdigits Nat.toDigits_ne_nil
  | cons c cs => rwa [hdigits] at hread

/-- Digits are no sign. -/
theorem sign_toDigits (n : Nat) : sign (Nat.toDigits 10 n) = (false, Nat.toDigits 10 n) := by
  have hdigit : ∀ c ∈ Nat.toDigits 10 n, c.isDigit = true := fun c hc =>
    Nat.isDigit_of_mem_toDigits (by decide) (by decide) hc
  cases hdigits : Nat.toDigits 10 n with
  | nil => rfl
  | cons c cs =>
      have hc := hdigit c (by simp [hdigits])
      unfold sign
      split
      · next heq =>
        rw [(List.cons.inj heq).1] at hc
        exact absurd hc (by decide)
      · next heq =>
        rw [(List.cons.inj heq).1] at hc
        exact absurd hc (by decide)
      · rfl

/-! ### Signed words -/

theorem toList_integer_negSucc (n : Nat) :
    (integer (.negSucc n)).toList = '-' :: Nat.toDigits 10 (n + 1) := by
  simp [integer]

/-- **The text of a signed word is read back.** -/
theorem int64?_integer (value : Int64) : int64? (integer value.toInt).toList = some value := by
  have hle := value.toInt_le
  have hge := value.minValue_le_toInt
  have hvalue := value.ofInt_toInt
  rw [Int64.toInt_maxValue] at hle
  rw [Int64.toInt_minValue] at hge
  cases hsign : value.toInt with
  | ofNat n =>
      rw [hsign] at hle hvalue
      have hn : n < UInt64.size := by
        simp only [Int.ofNat_eq_natCast, UInt64.size] at hle ⊢
        omega
      have hsigned : signed false n = .ok value := by
        rw [signed, if_neg (by decide), if_neg, ← hvalue]
        · rfl
        · rw [Int64.toInt_maxValue]
          simp only [Int.ofNat_eq_natCast] at hle
          omega
      simp only [integer, toList_natural, int64?, int64, sign_toDigits, word64_toDigits hn, hsigned]
      rfl
  | negSucc n =>
      rw [hsign] at hge hvalue
      have hn : n + 1 < UInt64.size := by
        simp only [UInt64.size] at hge ⊢
        omega
      have hsigned : signed true (n + 1) = .ok value := by
        rw [signed, if_pos rfl, if_neg, ← hvalue]
        · rfl
        · rw [Int64.toInt_minValue]
          omega
      simp only [toList_integer_negSucc, int64?, int64, sign, word64_toDigits hn, hsigned]
      rfl

/-- The text of an integer is not empty and has only digits and a minus sign. -/
theorem integer_letters (value : Int) :
    (integer value).toList ≠ [] ∧ ∀ c ∈ (integer value).toList, c.isDigit = true ∨ c = '-' := by
  have hdigit : ∀ (n : Nat), ∀ c ∈ Nat.toDigits 10 n, c.isDigit = true := fun n c hc =>
    Nat.isDigit_of_mem_toDigits (by decide) (by decide) hc
  cases value with
  | ofNat n =>
      rw [integer, toList_natural]
      exact ⟨Nat.toDigits_ne_nil, fun c hc => Or.inl (hdigit n c hc)⟩
  | negSucc n =>
      rw [toList_integer_negSucc]
      refine ⟨List.cons_ne_nil _ _, fun c hc => ?_⟩
      rcases List.mem_cons.1 hc with rfl | hc
      · exact Or.inr rfl
      · exact Or.inl (hdigit _ c hc)

end Numeral

end RegisterColouring
