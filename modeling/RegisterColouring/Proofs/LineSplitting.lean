/-
**Lines make up the text.**

Cutting a text at its newlines loses nothing: the lines, each with its newline, are the text again.
Only the last line has none if the text ends without one.  The lines are numbered from one, and each
starts where the ones before it, with their newlines, end.  So the stretches from the start of a line
up to its newline cover the text and do not overlap, and around a position of the text there is one
line, which is the one that is found by counting the newlines before the position.

Main definitions:

* `RegisterColouring.Source.Cut` — **a text cut into lines**;
* `RegisterColouring.Source.joined` — lines joined again.

Main results:

* `RegisterColouring.Source.cut_lines` — the lines of a text cut it;
* `RegisterColouring.Source.Cut.joined_eq` — **lines make up the text**;
* `RegisterColouring.Source.Cut.pairwise` — lines do not overlap;
* `RegisterColouring.Source.texts_linesFrom` — the lines of a text that is made of closed lines;
* `RegisterColouring.Source.lines_exact` — **the lines of a text and the line around a position**.
-/

import RegisterColouring.Proofs.SourceLines

set_option autoImplicit false

namespace RegisterColouring

namespace Source

/-! ### Texts cut into lines -/

/-- **A text cut into lines**, of which the first has the given number and start. -/
inductive Cut : (number start : Nat) → List Line → List Char → Prop
  | done (number start : Nat) : Cut number start [] []
  | last {text : List Char} (number start : Nat) (hnewline : '\n' ∉ text) (hne : text ≠ []) :
      Cut number start [⟨number, start, text⟩] text
  | line {number start : Nat} {text rest : List Char} {lines : List Line} (hnewline : '\n' ∉ text)
      (h : Cut (number + 1) (start + text.length + 1) lines rest) :
      Cut number start (⟨number, start, text⟩ :: lines) (text ++ '\n' :: rest)

theorem cut_linesFrom {number start : Nat} {read text : List Char} (hread : '\n' ∉ read) :
    Cut number start (linesFrom number start read text) (read.reverse ++ text) := by
  induction text generalizing number start read with
  | nil =>
      rw [linesFrom, List.append_nil]
      split
      · next hnil =>
        obtain rfl := List.isEmpty_iff.1 hnil
        exact .done number start
      · next hne =>
        rw [List.isEmpty_iff] at hne
        exact .last number start (mt List.mem_reverse.1 hread) (mt List.reverse_eq_nil_iff.1 hne)
  | cons c rest ih =>
      rw [linesFrom]
      split
      · next hc =>
        subst hc
        refine .line (mt List.mem_reverse.1 hread) ?_
        rw [List.length_reverse]
        exact ih List.not_mem_nil
      · next hc =>
        rw [List.append_cons, ← List.reverse_cons]
        exact ih (List.not_mem_cons_of_ne_of_not_mem (Ne.symm hc) hread)

/-- The lines of a text cut it. -/
theorem cut_lines (source : Source) : Cut 1 0 source.lines source.text :=
  cut_linesFrom List.not_mem_nil

/-! ### Lines joined again -/

/-- **Lines joined again.**  Every line is followed by a newline, the last one only if the text is
closed by one. -/
def joined (closed : Bool) : List Line → List Char
  | [] => []
  | [line] => line.text ++ if closed then ['\n'] else []
  | line :: next :: rest => line.text ++ '\n' :: joined closed (next :: rest)

theorem joined_cons {closed : Bool} {line : Line} {lines : List Line} (h : lines ≠ [] ∨ closed) :
    joined closed (line :: lines) = line.text ++ '\n' :: joined closed lines := by
  cases lines with
  | nil =>
      have hclosed : closed = true := h.resolve_left (fun hne => hne rfl)
      simp [joined, hclosed]
  | cons next rest => rfl

/-- Whether a text ends with a newline. -/
def isClosed (text : List Char) : Bool := text.getLast? == some '\n'

namespace Cut

variable {number start : Nat} {lines : List Line} {text : List Char} {line : Line}

theorem eq_nil_iff (h : Cut number start lines text) : lines = [] ↔ text = [] := by
  cases h <;> simp_all

/-- **Lines make up the text.** -/
theorem joined_eq (h : Cut number start lines text) : joined (isClosed text) lines = text := by
  induction h with
  | done => rfl
  | @last text number start hnewline hne =>
      have hopen : isClosed text = false := by
        rw [isClosed, beq_eq_false_iff_ne]
        exact fun hlast => hnewline (List.mem_of_getLast? hlast)
      simp [joined, hopen]
  | @line number start text rest lines hnewline h ih =>
      -- nothing is left after the newline that closes the text
      cases rest with
      | nil =>
          obtain rfl := h.eq_nil_iff.2 rfl
          simp [joined, isClosed]
      | cons c rest =>
          have hne : lines ≠ [] := mt h.eq_nil_iff.1 (List.cons_ne_nil c rest)
          have hclosed : isClosed (text ++ '\n' :: c :: rest) = isClosed (c :: rest) := by
            simp [isClosed, List.getLast?_cons_cons]
          rw [joined_cons (Or.inl hne), hclosed, ih]

/-- What is known about the line with a given number. -/
theorem getElem? (h : Cut number start lines text) {k : Nat} (hline : lines[k]? = some line) :
    line.number = number + k ∧ line.start = start + (joined true (lines.take k)).length ∧
      '\n' ∉ line.text ∧
      (text.drop (joined true (lines.take k)).length).take line.length = line.text := by
  induction h generalizing k with
  | done => simp at hline
  | last number start hnewline hne =>
      obtain ⟨rfl, rfl⟩ : k = 0 ∧ _ = line := by
        cases k with
        | zero => simpa using hline
        | succ k => simp at hline
      exact ⟨rfl, rfl, hnewline, by simp [joined, Line.length]⟩
  | @line number start first rest lines hnewline h ih =>
      cases k with
      | zero =>
          obtain rfl : _ = line := by simpa using hline
          exact ⟨rfl, rfl, hnewline, by simp [joined, Line.length]⟩
      | succ k =>
          obtain ⟨hnumber, hstart, hnone, htext⟩ := ih (by simpa using hline)
          have hlength : (joined true ((⟨number, start, first⟩ :: lines).take (k + 1))).length =
              first.length + 1 + (joined true (lines.take k)).length := by
            rw [List.take_succ_cons, joined_cons (Or.inr rfl), List.length_append,
              List.length_cons, Nat.add_comm (joined true _).length 1, ← Nat.add_assoc]
          refine ⟨by omega, by omega, hnone, ?_⟩
          rw [hlength, ← List.drop_drop, List.append_cons, List.drop_left' (by simp), htext]

/-- A line comes after the start of the first one. -/
theorem start_le (h : Cut number start lines text) (hline : line ∈ lines) : start ≤ line.start := by
  obtain ⟨k, hk⟩ := List.getElem?_of_mem hline
  have hstart := (h.getElem? hk).2.1
  omega

/-- **Lines do not overlap**, nor do the newlines that end them. -/
theorem pairwise (h : Cut number start lines text) :
    lines.Pairwise fun line next => line.start + line.length < next.start := by
  induction h with
  | done => exact .nil
  | last => exact List.pairwise_singleton _ _
  | line hnewline h ih =>
      refine .cons (fun next hnext => ?_) ih
      have hle := h.start_le hnext
      simp only [Line.length]
      omega

/-- Around a position there is no more than one line. -/
theorem eq_of_around (h : Cut number start lines text) {next : Line} {i : Int}
    (hline : line ∈ lines) (hnext : next ∈ lines)
    (hi : line.start ≤ i ∧ i ≤ line.start + line.length)
    (hi' : next.start ≤ i ∧ i ≤ next.start + next.length) : line = next := by
  obtain ⟨j, hj, rfl⟩ := List.getElem_of_mem hline
  obtain ⟨k, hk, rfl⟩ := List.getElem_of_mem hnext
  have hapart := List.pairwise_iff_getElem.1 h.pairwise
  rcases Nat.lt_trichotomy j k with hlt | rfl | hgt
  · have := hapart j k hj hk hlt
    omega
  · rfl
  · have := hapart k j hk hj hgt
    omega

end Cut

/-! ### Closed lines -/

theorem linesFrom_closed {number start : Nat} {read text rest : List Char} (h : '\n' ∉ text) :
    linesFrom number start read (text ++ '\n' :: rest) =
      ⟨number, start, read.reverse ++ text⟩ ::
        linesFrom (number + 1) (start + (read.reverse ++ text).length + 1) [] rest := by
  induction text generalizing read with
  | nil => simp [linesFrom]
  | cons c text ih =>
      rw [List.mem_cons, not_or] at h
      rw [List.cons_append, linesFrom, if_neg (Ne.symm h.1), ih h.2, List.reverse_cons,
        ← List.append_cons]

/-- **A text that is made of closed lines has these lines.** -/
theorem texts_linesFrom {number start : Nat} {texts : List (List Char)}
    (h : ∀ text ∈ texts, '\n' ∉ text) :
    (linesFrom number start [] (texts.flatMap (· ++ ['\n']))).map Line.text = texts := by
  induction texts generalizing number start with
  | nil => rfl
  | cons text texts ih =>
      rw [List.forall_mem_cons] at h
      rw [List.flatMap_cons, ← List.append_cons, linesFrom_closed h.1, List.map_cons, ih h.2]
      rfl

/-! ### The line around a position -/

variable {source : Source} {position : Int}

/-- The line around a position of the text goes from before the position to after it. -/
theorem lineAt_around (hnonneg : 0 ≤ position) (hlt : position < source.text.length) :
    ((source.lineAt position).start : Int) ≤ position ∧
      position ≤ (source.lineAt position).start + (source.lineAt position).length := by
  have hclip : source.clip position = position.toNat := if_pos ⟨hnonneg, hlt⟩
  have hbefore : (source.text.take (source.clip position)).length = position.toNat := by
    rw [List.length_take, hclip]
    omega
  have hsegment := length_lastSegment_le (source.text.take (source.clip position))
  simp only [lineAt, Line.length, List.length_append]
  omega

/-- **The lines of a text and the line around a position.**  The lines are numbered from one, have no
newlines in them, and start where the lines before end; joined again they are the text.  Around a
position inside the text there is exactly one of them, and it is the one that is looked up. -/
theorem lines_exact (source : Source) :
    (∀ k line, source.lines[k]? = some line →
      line.number = k + 1 ∧ '\n' ∉ line.text ∧
      line.start = (joined true (source.lines.take k)).length ∧
      (source.text.drop line.start).take line.length = line.text) ∧
    joined (isClosed source.text) source.lines = source.text ∧
    ∀ span : Span, 0 ≤ span.start → span.start < source.text.length →
      ∀ line, source.lineAt span.start = line ↔
        line ∈ source.lines ∧ line.start ≤ span.start ∧ span.start ≤ line.start + line.length := by
  have hcut := source.cut_lines
  refine ⟨?_, hcut.joined_eq, ?_⟩
  · intro k line hline
    obtain ⟨hnumber, hstart, hnone, htext⟩ := hcut.getElem? hline
    rw [Nat.zero_add] at hstart
    exact ⟨by omega, hnone, hstart, by rwa [hstart]⟩
  · intro span hnonneg hlt line
    have hmem : source.lineAt span.start ∈ source.lines := by
      rw [lineAt_mem_lines_iff, clip, if_pos ⟨hnonneg, hlt⟩]
      left
      omega
    have haround := lineAt_around hnonneg hlt
    constructor
    · rintro rfl
      exact ⟨hmem, haround⟩
    · rintro ⟨hline, hinside⟩
      exact hcut.eq_of_around hmem hline haround hinside

/-- A text with an empty line, and a last line that is not closed. -/
def ragged : Source := ⟨"ragged.l2", "ab\n\ncd".toList⟩

/-- The newline after `ab` is on its line, and the next one on the empty line that it ends. -/
theorem ragged_lines_exact :
    joined (isClosed ragged.text) ragged.lines = ragged.text ∧
      ragged.lineAt 2 = ⟨1, 0, ['a', 'b']⟩ ∧ ragged.lineAt 3 = ⟨2, 3, []⟩ := by
  obtain ⟨-, hjoined, haround⟩ := lines_exact ragged
  refine ⟨hjoined, ?_, ?_⟩
  · exact (haround (Span.single 2) (by decide) (by decide) _).2 (by decide)
  · exact (haround (Span.single 3) (by decide) (by decide) _).2 (by decide)

end Source

end RegisterColouring
