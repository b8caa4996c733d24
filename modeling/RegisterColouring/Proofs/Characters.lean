/-
**Characters of bytes put together.**

A byte below 128 is a character by itself and part of no other one.  So where such a byte stands
between two sequences of bytes, the characters of both are those of the one and then those of the
other, even if the first sequence ends in the middle of a character: its last bytes are then stray
ones, with or without what follows.

Main definitions:

* `RegisterColouring.Utf8.isSingle` — a byte that is a character by itself.

Main results:

* `RegisterColouring.Utf8.decode_append` — **characters of bytes put together**;
* `RegisterColouring.Utf8.newline_mem_of_decode` — a newline is read from a byte of its own;
* `RegisterColouring.newline_mem_of_bytesOf` — and such a byte is written for a newline only.
-/

import RegisterColouring.Layout.Table

set_option autoImplicit false

namespace RegisterColouring

namespace Utf8

/-- A byte that is a character by itself. -/
def isSingle (byte : UInt8) : Bool := within 0 0x7F byte

variable {lead byte : UInt8} {bytes rest : List UInt8}

theorem isSingle_iff : isSingle byte = true ↔ byte.toNat ≤ 0x7F := by
  simp [isSingle, within]

/-- A byte that is a character by itself continues no other. -/
theorem not_isContinuation (h : isSingle byte = true) : isContinuation byte = false := by
  rw [isSingle_iff] at h
  have hlow : ¬ 0x80 ≤ byte.toNat := by omega
  simp [isContinuation, within, hlow]

theorem le_secondLow (lead : UInt8) : 0x80 ≤ secondLow lead := by
  unfold secondLow
  split
  · decide
  · split <;> decide

theorem not_within_second (h : isSingle byte = true) (lead : UInt8) :
    within (secondLow lead) (secondHigh lead) byte = false := by
  rw [isSingle_iff] at h
  have hlow := le_secondLow lead
  have hnot : ¬ secondLow lead ≤ byte.toNat := by omega
  simp [within, hnot]

/-! ### Bytes put together -/

/-- What follows after a byte that is a character by itself does not matter for the character
before it. -/
theorem scalar?_append (h : isSingle byte = true) :
    scalar? lead (bytes ++ byte :: rest) = scalar? lead bytes := by
  have hcontinuation := not_isContinuation h
  have hsecond := not_within_second h lead
  match bytes with
  | [] => simp [scalar?, hcontinuation, hsecond]
  | [b] => simp [scalar?, hcontinuation]
  | [b, c] => simp [scalar?, hcontinuation]
  | b :: c :: d :: more => rfl

/-- The second byte keeps a character from being written with more bytes than it needs. -/
theorem second_spec {b : UInt8} (h : within (secondLow lead) (secondHigh lead) b = true) :
    0x80 ≤ b.toNat ∧ (lead.toNat = 0xE0 → 0xA0 ≤ b.toNat) ∧ (lead.toNat = 0xF0 → 0x90 ≤ b.toNat) := by
  have hle : secondLow lead ≤ b.toNat := by
    simp only [within, Bool.and_eq_true, decide_eq_true_eq] at h
    exact h.1
  refine ⟨Nat.le_trans (le_secondLow lead) hle, ?_, ?_⟩
  · intro hlead
    obtain rfl : lead = 0xE0 := UInt8.toNat_inj.1 hlead
    exact hle
  · intro hlead
    obtain rfl : lead = 0xF0 := UInt8.toNat_inj.1 hlead
    exact hle

theorem three_le {lead second : Nat} (hlead : 0xE0 ≤ lead) (h : lead = 0xE0 → 0xA0 ≤ second)
    (third : Nat) : 0x80 ≤ ((lead - 0xE0) * 64 + (second - 0x80)) * 64 + third := by
  omega

theorem four_le {lead second : Nat} (hlead : 0xF0 ≤ lead) (h : lead = 0xF0 → 0x90 ≤ second)
    (third fourth : Nat) :
    0x80 ≤ (((lead - 0xF0) * 64 + (second - 0x80)) * 64 + third) * 64 + fourth := by
  omega

/-- **What a character is read from**: one byte below 128, or several bytes, all there, for a code
point of at least 128. -/
theorem scalar?_cases {c : Char} {taken : Nat} (h : scalar? lead bytes = some (c, taken)) :
    (isSingle lead = true ∧ c = Char.ofNat lead.toNat ∧ taken = 0) ∨
      (∃ n, 0x80 ≤ n ∧ c = Char.ofNat n) ∧ taken ≤ bytes.length := by
  unfold scalar? at h
  split at h
  · next hsingle =>
    obtain ⟨rfl, rfl⟩ := Prod.mk.inj (Option.some.inj h)
    exact Or.inl ⟨hsingle, rfl, rfl⟩
  right
  cases bytes with
  | nil => simp at h
  | cons second bytes =>
    dsimp only at h
    split at h
    · next hlead =>
      split at h
      · obtain ⟨rfl, rfl⟩ := Prod.mk.inj (Option.some.inj h)
        simp only [within, Bool.and_eq_true, decide_eq_true_eq] at hlead
        exact ⟨⟨_, by omega, rfl⟩, Nat.succ_le_succ (Nat.zero_le _)⟩
      · simp at h
    split at h
    · simp at h
    next hsecond =>
    obtain ⟨-, hthree, hfour⟩ := second_spec (by simpa using hsecond)
    cases bytes with
    | nil => simp at h
    | cons third bytes =>
      dsimp only at h
      split at h
      · simp at h
      split at h
      · next hlead =>
        obtain ⟨rfl, rfl⟩ := Prod.mk.inj (Option.some.inj h)
        simp only [within, Bool.and_eq_true, decide_eq_true_eq] at hlead
        exact ⟨⟨_, three_le hlead.1 hthree _, rfl⟩,
          Nat.succ_le_succ (Nat.succ_le_succ (Nat.zero_le _))⟩
      split at h
      · simp at h
      next hlead =>
      cases bytes with
      | nil => simp at h
      | cons fourth bytes =>
        dsimp only at h
        split at h
        · obtain ⟨rfl, rfl⟩ := Prod.mk.inj (Option.some.inj h)
          simp only [within, Bool.not_eq_true', Bool.not_eq_false, Bool.and_eq_true,
            decide_eq_true_eq] at hlead
          exact ⟨⟨_, four_le hlead.1 hfour _ _, rfl⟩,
            Nat.succ_le_succ (Nat.succ_le_succ (Nat.succ_le_succ (Nat.zero_le _)))⟩
        · simp at h

/-- A character takes no more bytes than there are. -/
theorem taken_le {c : Char} {taken : Nat} (h : scalar? lead bytes = some (c, taken)) :
    taken ≤ bytes.length := by
  rcases scalar?_cases h with ⟨-, -, rfl⟩ | ⟨-, hle⟩
  · exact Nat.zero_le _
  · exact hle

theorem decodeAfter_append (h : isSingle byte = true) {skip : Nat} (hskip : skip ≤ bytes.length) :
    decodeAfter skip (bytes ++ byte :: rest) =
      decodeAfter skip bytes ++ decodeAfter 0 (byte :: rest) := by
  induction bytes generalizing skip with
  | nil =>
      obtain rfl : skip = 0 := Nat.le_zero.1 hskip
      rfl
  | cons lead bytes ih =>
      cases skip with
      | succ skip => exact ih (Nat.le_of_succ_le_succ hskip)
      | zero =>
          rw [List.cons_append, decodeAfter, decodeAfter, scalar?_append h]
          split
          · next c taken hscalar => rw [ih (taken_le hscalar), List.cons_append]
          · rw [ih (Nat.zero_le _), List.cons_append]

/-- **Characters of bytes put together**, where a character starts that is one byte. -/
theorem decode_append (h : isSingle byte = true) :
    decode (bytes ++ byte :: rest) = decode bytes ++ decode (byte :: rest) :=
  decodeAfter_append h (Nat.zero_le _)

theorem decode_cons (h : isSingle byte = true) :
    decode (byte :: rest) = Char.ofNat byte.toNat :: decode rest := by
  have hscalar : scalar? byte rest = some (Char.ofNat byte.toNat, 0) := if_pos h
  simp only [decode, decodeAfter, hscalar]

/-- Characters of bytes put together, where a character ends that is one byte. -/
theorem decode_append_of_last (h : isSingle byte = true) :
    decode (bytes ++ [byte] ++ rest) = decode (bytes ++ [byte]) ++ decode rest := by
  rw [List.append_assoc, List.singleton_append, decode_append h, decode_append h, decode_cons h,
    decode_cons h, decode_nil, List.append_assoc, List.singleton_append]

/-- Bytes that are characters by themselves are as many characters. -/
theorem length_decode_of_single (h : ∀ byte ∈ bytes, isSingle byte = true) :
    (decode bytes).length = bytes.length := by
  induction bytes with
  | nil => rfl
  | cons byte bytes ih =>
      rw [List.forall_mem_cons] at h
      rw [decode_cons h.1, List.length_cons, List.length_cons, ih h.2]

/-- Bytes that are characters by themselves add as many characters. -/
theorem length_decode_append (h : ∀ byte ∈ rest, isSingle byte = true) :
    (decode (bytes ++ rest)).length = (decode bytes).length + rest.length := by
  cases rest with
  | nil => simp
  | cons byte rest =>
      rw [decode_append (h byte (List.mem_cons_self ..)), List.length_append,
        length_decode_of_single h]

/-! ### Newlines -/

theorem eq_of_ofNat_eq_newline {n : Nat} (h : Char.ofNat n = '\n') : n = 10 := by
  by_cases hvalid : n.isValidChar
  · have hchar : Char.ofNat n = Char.ofNatAux n hvalid := dif_pos hvalid
    exact congrArg Char.toNat (hchar.symm.trans h)
  · have hchar : Char.ofNat n = Char.ofNat 0 := dif_neg hvalid
    exact absurd (hchar.symm.trans h) (by decide)

/-- A newline is one byte. -/
theorem lead_eq_of_newline {taken : Nat} (h : scalar? lead bytes = some ('\n', taken)) :
    lead = 10 := by
  rcases scalar?_cases h with ⟨-, hcode, -⟩ | ⟨⟨n, hn, hcode⟩, -⟩
  · exact UInt8.toNat_inj.1 (eq_of_ofNat_eq_newline hcode.symm)
  · have hten := eq_of_ofNat_eq_newline hcode.symm
    omega

/-- **A newline is read from a byte of its own.** -/
theorem newline_mem_of_decodeAfter {skip : Nat} (h : '\n' ∈ decodeAfter skip bytes) :
    10 ∈ bytes := by
  induction bytes generalizing skip with
  | nil => simp [decodeAfter] at h
  | cons lead bytes ih =>
      cases skip with
      | succ skip => exact List.mem_cons_of_mem _ (ih h)
      | zero =>
          simp only [decodeAfter] at h
          split at h
          · next c taken hscalar =>
            rcases List.mem_cons.1 h with rfl | h
            · rw [lead_eq_of_newline hscalar]
              exact List.mem_cons_self ..
            · exact List.mem_cons_of_mem _ (ih h)
          · rcases List.mem_cons.1 h with h | h
            · exact absurd h (by decide)
            · exact List.mem_cons_of_mem _ (ih h)

theorem newline_mem_of_decode (h : '\n' ∈ decode bytes) : 10 ∈ bytes :=
  newline_mem_of_decodeAfter h

end Utf8

theorem bytesOf_eq_flatMap (text : String) :
    bytesOf text = text.toList.flatMap String.utf8EncodeChar := by
  rw [bytesOf, String.toUTF8, ← String.utf8Encode_toList, List.utf8Encode]
  simp

/-- A character is written as one byte, its code point, or as bytes that are none of their own. -/
theorem encode_cases {c : Char} {byte : UInt8} (h : byte ∈ String.utf8EncodeChar c) :
    byte.toNat = c.toNat ∨ 0x80 ≤ byte.toNat := by
  unfold String.utf8EncodeChar at h
  simp only at h
  split at h
  · next hle =>
    left
    rw [List.mem_singleton.1 h, UInt8.toNat_ofNat_of_lt' (Nat.lt_of_le_of_lt hle (by decide))]
    rfl
  · right
    repeat' split at h
    all_goals
      simp only [List.mem_cons, List.not_mem_nil, or_false, ← UInt8.toNat_inj,
        UInt8.toNat_ofNat'] at h
      omega

/-- **The byte of a newline is written for a newline only.** -/
theorem newline_mem_of_bytesOf {text : String} (h : 10 ∈ bytesOf text) : '\n' ∈ text.toList := by
  rw [bytesOf_eq_flatMap] at h
  obtain ⟨c, hc, hbyte⟩ := List.mem_flatMap.1 h
  rcases encode_cases hbyte with hcode | hlarge
  · have hnewline : c = '\n' := Char.toNat_inj.1 hcode.symm
    rwa [← hnewline]
  · exact absurd hlarge (by decide)

end RegisterColouring
