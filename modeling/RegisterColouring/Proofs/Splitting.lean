/-
**How a text splits into tokens.**

A text is read from left to right.  Blanks and comments are skipped, a comment going from a
semicolon to the end of its line; a parenthesis is a token by itself; and everything else belongs to
symbols, each of which goes on as long as it can.  This says what the tokens of a text are without a
scanner that passes over it, and the scanner finds exactly those.

Main definitions:

* `RegisterColouring.Splits` — **the tokens of a text**, from a position on;
* `RegisterColouring.Token.Spread` — tokens that stand one after the other between two positions.

Main results:

* `RegisterColouring.splits_iff` — the scanner finds the tokens of a text;
* `RegisterColouring.Splits.spread` — where the tokens of a text stand.
-/

import Mathlib.Data.List.TakeWhile
import RegisterColouring.Proofs.TermText

set_option autoImplicit false

namespace RegisterColouring

/-- **The tokens of a text whose first character is at a given position.**  A comment ends before a
newline or with the text, and a symbol before a character that cannot stand in one. -/
inductive Splits : Nat → List Char → List Token → Prop
  | nil (position : Nat) : Splits position [] []
  | blank {position : Nat} {c : Char} {rest : List Char} {tokens : List Token}
      (hc : isBlank c = true) (h : Splits (position + 1) rest tokens) :
      Splits position (c :: rest) tokens
  | comment {position : Nat} {body rest : List Char} {tokens : List Token} (hbody : '\n' ∉ body)
      (hrest : ∀ c ∈ rest.head?, c = '\n') (h : Splits (position + 1 + body.length) rest tokens) :
      Splits position (';' :: body ++ rest) tokens
  | opening {position : Nat} {rest : List Char} {tokens : List Token}
      (h : Splits (position + 1) rest tokens) :
      Splits position ('(' :: rest) (.opening position :: tokens)
  | closing {position : Nat} {rest : List Char} {tokens : List Token}
      (h : Splits (position + 1) rest tokens) :
      Splits position (')' :: rest) (.closing position :: tokens)
  | symbol {position : Nat} {word rest : List Char} {tokens : List Token} (hne : word ≠ [])
      (hword : ∀ c ∈ word, isSymbolLetter c = true) (hrest : Stops rest)
      (h : Splits (position + word.length) rest tokens) :
      Splits position (word ++ rest) (.symbol position word :: tokens)

/-! ### The scanner -/

namespace Token

theorem scanFrom_of_not_letter {c : Char} (h : isSymbolLetter c = false) (hc : c ≠ ';')
    (position : Nat) (rest : List Char) :
    scanFrom .between position (c :: rest) =
      parenthesis position c ++ scanFrom .between (position + 1) rest := by
  rw [scanFrom, if_neg (by simp), if_neg (by simp [h]), if_neg hc]
  rfl

theorem scanFrom_blank {c : Char} (h : isBlank c = true) (position : Nat) (rest : List Char) :
    scanFrom .between position (c :: rest) = scanFrom .between (position + 1) rest := by
  have hne : ∀ d, isBlank d = false → c ≠ d := by
    rintro d hd rfl
    rw [h] at hd
    exact absurd hd (by decide)
  rw [scanFrom_of_not_letter (not_isSymbolLetter_of_isBlank h) (hne ';' (by decide)), parenthesis,
    if_neg (hne '(' (by decide)), if_neg (hne ')' (by decide)), List.nil_append]

/-- Inside a comment, everything up to the end of the line is skipped. -/
theorem scanFrom_comment {body rest : List Char} (hbody : '\n' ∉ body)
    (hrest : ∀ c ∈ rest.head?, c = '\n') (position : Nat) :
    scanFrom .comment position (body ++ rest) =
      scanFrom .between (position + body.length) rest := by
  induction body generalizing position with
  | nil =>
      cases rest with
      | nil => rfl
      | cons c rest =>
          obtain rfl : c = '\n' := hrest c rfl
          rw [List.nil_append, List.length_nil, Nat.add_zero, scanFrom_blank (by decide)]
          simp [scanFrom]
  | cons c body ih =>
      rw [List.mem_cons, not_or] at hbody
      have hstep : scanFrom .comment position (c :: (body ++ rest)) =
          scanFrom .comment (position + 1) (body ++ rest) := by
        simp [scanFrom, Ne.symm hbody.1]
      rw [List.cons_append, hstep, ih hbody.2, List.length_cons, Nat.add_right_comm, Nat.add_assoc]

/-- Inside a symbol, everything up to its end belongs to it. -/
theorem scanFrom_inside {word rest : List Char} (hword : ∀ c ∈ word, isSymbolLetter c = true)
    (hrest : Stops rest) (start position : Nat) (read : List Char) :
    scanFrom (.inside start read) position (word ++ rest) =
      symbol start (read.reverse ++ word) ::
        scanFrom .between (position + word.length) rest := by
  induction word generalizing position read with
  | nil =>
      rw [List.nil_append, List.append_nil, List.length_nil, Nat.add_zero]
      cases rest with
      | nil => rfl
      | cons c rest =>
          have hc := stops_cons.1 hrest
          simp [scanFrom, hc, Place.finished]
  | cons c word ih =>
      have hstep : scanFrom (.inside start read) position (c :: (word ++ rest)) =
          scanFrom (.inside start (c :: read)) (position + 1) (word ++ rest) := by
        simp [scanFrom, hword c (List.mem_cons_self ..), Place.extend]
      rw [List.cons_append, hstep, ih fun d hd => hword d (List.mem_cons_of_mem _ hd),
        List.reverse_cons, List.append_assoc, List.singleton_append, List.length_cons,
        Nat.add_right_comm, Nat.add_assoc]

theorem scanFrom_symbol {word rest : List Char} (hne : word ≠ [])
    (hword : ∀ c ∈ word, isSymbolLetter c = true) (hrest : Stops rest) (position : Nat) :
    scanFrom .between position (word ++ rest) =
      symbol position word :: scanFrom .between (position + word.length) rest := by
  cases word with
  | nil => exact absurd rfl hne
  | cons c word =>
      have hstep : scanFrom .between position (c :: (word ++ rest)) =
          scanFrom (.inside position [c]) (position + 1) (word ++ rest) := by
        simp [scanFrom, hword c (List.mem_cons_self ..), Place.extend]
      rw [List.cons_append, hstep,
        scanFrom_inside (fun d hd => hword d (List.mem_cons_of_mem _ hd)) hrest, List.length_cons,
        Nat.add_right_comm, Nat.add_assoc]
      rfl

end Token

/-! ### The tokens of a text -/

theorem Splits.scanFrom_eq {position : Nat} {text : List Char} {tokens : List Token}
    (h : Splits position text tokens) : Token.scanFrom .between position text = tokens := by
  induction h with
  | nil position => rfl
  | blank hc _ ih => rw [Token.scanFrom_blank hc, ih]
  | @comment position body rest tokens hbody hrest _ ih =>
      have hstart : Token.scanFrom .between position (';' :: (body ++ rest)) =
          Token.scanFrom .comment (position + 1) (body ++ rest) := by
        rw [Token.scanFrom, if_neg (by simp), if_neg (by decide), if_pos rfl]
        rfl
      rw [List.cons_append, hstart, Token.scanFrom_comment hbody hrest, ih]
  | opening _ ih => rw [Token.scanFrom_of_not_letter (by decide) (by decide), ih]; rfl
  | closing _ ih => rw [Token.scanFrom_of_not_letter (by decide) (by decide), ih]; rfl
  | symbol hne hword hrest _ ih => rw [Token.scanFrom_symbol hne hword hrest, ih]

/-- What follows the longest start of a text whose characters have a property does not have it. -/
theorem head?_dropWhile {p : Char → Bool} {text : List Char} {c : Char}
    (h : c ∈ (text.dropWhile p).head?) : p c = false := by
  have hnot := List.head?_dropWhile_not p text
  rw [Option.mem_def.1 h] at hnot
  exact hnot

/-- A character is a blank, a letter of a symbol, a parenthesis or the start of a comment. -/
theorem character_cases (c : Char) :
    isBlank c = true ∨ isSymbolLetter c = true ∨ c = '(' ∨ c = ')' ∨ c = ';' := by
  by_cases hletter : isSymbolLetter c = true
  · exact Or.inr (Or.inl hletter)
  · simp only [isSymbolLetter, Bool.and_eq_true, bne_iff_ne, Bool.not_eq_true'] at hletter
    grind

/-- **Every text splits into tokens.** -/
theorem exists_splits (position : Nat) (text : List Char) :
    ∃ tokens, Splits position text tokens := by
  -- a step takes at least one character from the text
  induction hlength : text.length using Nat.strongRecOn generalizing position text with
  | ind n ih =>
      cases text with
      | nil => exact ⟨[], .nil position⟩
      | cons c rest =>
          have hdrop : ∀ p : Char → Bool, (rest.dropWhile p).length < n := fun p => by
            have hle := (List.dropWhile_sublist p (l := rest)).length_le
            rw [List.length_cons] at hlength
            omega
          have hrest : rest.length < n := by
            rw [List.length_cons] at hlength
            omega
          rcases character_cases c with hblank | hletter | rfl | rfl | rfl
          · obtain ⟨tokens, h⟩ := ih _ hrest (position + 1) rest rfl
            exact ⟨tokens, .blank hblank h⟩
          · obtain ⟨tokens, h⟩ := ih _ (hdrop isSymbolLetter)
              (position + (c :: rest.takeWhile isSymbolLetter).length) _ rfl
            refine ⟨.symbol position (c :: rest.takeWhile isSymbolLetter) :: tokens, ?_⟩
            have hletters : ∀ d ∈ c :: rest.takeWhile isSymbolLetter, isSymbolLetter d = true := by
              intro d hd
              rcases List.mem_cons.1 hd with rfl | hd
              · exact hletter
              · exact List.mem_takeWhile_imp hd
            have hsplits := Splits.symbol (by simp) hletters (fun d hd => head?_dropWhile hd) h
            rwa [List.cons_append, List.takeWhile_append_dropWhile] at hsplits
          · obtain ⟨tokens, h⟩ := ih _ hrest (position + 1) rest rfl
            exact ⟨_, .opening h⟩
          · obtain ⟨tokens, h⟩ := ih _ hrest (position + 1) rest rfl
            exact ⟨_, .closing h⟩
          · obtain ⟨tokens, h⟩ := ih _ (hdrop (· != '\n'))
              (position + 1 + (rest.takeWhile (· != '\n')).length) _ rfl
            have hbody : '\n' ∉ rest.takeWhile (· != '\n') := fun hmem =>
              absurd (List.mem_takeWhile_imp hmem) (by simp)
            have hsplits := Splits.comment hbody (fun d hd => by simpa using head?_dropWhile hd) h
            rw [List.cons_append, List.takeWhile_append_dropWhile] at hsplits
            exact ⟨tokens, hsplits⟩

/-- **The scanner finds the tokens of a text**, and no text splits in two ways. -/
theorem splits_iff {text : List Char} {tokens : List Token} :
    Splits 0 text tokens ↔ tokens = Token.scan text := by
  constructor
  · exact fun h => h.scanFrom_eq.symm
  · rintro rfl
    obtain ⟨tokens, h⟩ := exists_splits 0 text
    rwa [Token.scan, h.scanFrom_eq]

/-! ### Where tokens stand -/

/-- Tokens that have at least one character each and stand one after the other, none before position
`low` and none reaching past position `high`. -/
def Token.Spread (low high : Nat) : List Token → Prop
  | [] => low ≤ high
  | token :: tokens =>
    low ≤ token.start ∧ token.text ≠ [] ∧
      Spread (token.start + token.text.length) high tokens

namespace Token.Spread

variable {low high : Nat} {tokens : List Token}

theorem le (h : Spread low high tokens) : low ≤ high := by
  induction tokens generalizing low with
  | nil => exact h
  | cons token tokens ih =>
      obtain ⟨hstart, -, hrest⟩ := h
      have hle := ih hrest
      omega

/-- Tokens that may start earlier. -/
theorem mono {low' : Nat} (h : Spread low high tokens) (hle : low' ≤ low) :
    Spread low' high tokens := by
  cases tokens with
  | nil => exact Nat.le_trans hle h
  | cons token tokens => exact ⟨Nat.le_trans hle h.1, h.2⟩

theorem mem {token : Token} (h : Spread low high tokens) (hmem : token ∈ tokens) :
    low ≤ token.start ∧ token.start < token.start + token.text.length ∧
      token.start + token.text.length ≤ high := by
  induction tokens generalizing low with
  | nil => simp at hmem
  | cons first tokens ih =>
      obtain ⟨hstart, htext, hrest⟩ := h
      rcases List.mem_cons.1 hmem with rfl | hmem
      · exact ⟨hstart, Nat.lt_add_of_pos_right (List.length_pos_of_ne_nil htext), hrest.le⟩
      · have hlater := ih hrest hmem
        omega

end Token.Spread

/-- **The tokens of a text stand in it, one after the other.** -/
theorem Splits.spread {position : Nat} {text : List Char} {tokens : List Token}
    (h : Splits position text tokens) : Token.Spread position (position + text.length) tokens := by
  induction h with
  | nil position => exact Nat.le_refl _
  | blank _ _ ih =>
      rw [List.length_cons, ← Nat.add_assoc, Nat.add_right_comm]
      exact ih.mono (Nat.le_succ _)
  | @comment position body rest tokens _ _ _ ih =>
      have hlength : position + (';' :: body ++ rest).length =
          position + 1 + body.length + rest.length := by
        simp only [List.cons_append, List.length_cons, List.length_append]
        omega
      rw [hlength]
      exact ih.mono (by omega)
  | opening _ ih =>
      rw [List.length_cons, ← Nat.add_assoc, Nat.add_right_comm]
      exact ⟨Nat.le_refl _, by simp [Token.text], ih⟩
  | closing _ ih =>
      rw [List.length_cons, ← Nat.add_assoc, Nat.add_right_comm]
      exact ⟨Nat.le_refl _, by simp [Token.text], ih⟩
  | symbol hne _ _ _ ih =>
      rw [List.length_append, ← Nat.add_assoc]
      exact ⟨Nat.le_refl _, hne, ih⟩

end RegisterColouring
