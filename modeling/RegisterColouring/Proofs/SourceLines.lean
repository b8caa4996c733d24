/-
**Lines around positions.**

The lines of a text and the line around a position are found in two ways: by cutting the text at its
newlines, and by counting the newlines before the position.  For a position inside the text they
agree: the line around it is the one with its number.  At the end of a text that ends with a newline
they do not.  The line around the end is empty, starts at the end of the text, and is none of the
lines.  The only issue at the end of a text is that the text ends too early.

Main definitions:

* `RegisterColouring.Issue.endOfFile` — the issue that a text ends too early;
* `RegisterColouring.Issue.Placed` — an issue that starts inside the text, or is that one.

Main results:

* `RegisterColouring.Source.getElem?_linesFrom` — **the line with a given number**;
* `RegisterColouring.Source.lineAt_mem_lines_iff` — **when the line around a position is a line**;
* `RegisterColouring.Issue.placed_one`, `RegisterColouring.Issue.placed_spillRequest` — where the
  issues of a text start;
* `RegisterColouring.Issue.on_line_iff` — **the issues that are on a line of the text**.
-/

import RegisterColouring.Proofs.IssueOrder
import RegisterColouring.Proofs.SafeReading

set_option autoImplicit false

namespace RegisterColouring

namespace Source

/-! ### The last segment -/

theorem lastSegment_of_not_mem {text : List Char} (h : '\n' ∉ text) : lastSegment text = text := by
  have hall : text.reverse.takeWhile (· != '\n') = text.reverse := by
    rw [List.takeWhile_eq_self_iff]
    intro c hc
    rw [bne_iff_ne]
    rintro rfl
    exact h (List.mem_reverse.1 hc)
  rw [lastSegment, hall, List.reverse_reverse]

theorem lastSegment_newline (front rest : List Char) :
    lastSegment (front ++ '\n' :: rest) = lastSegment rest := by
  rw [lastSegment, List.reverse_append, List.reverse_cons, List.append_assoc,
    List.takeWhile_append]
  split
  · next hlength =>
    have hall : rest.reverse.takeWhile (· != '\n') = rest.reverse :=
      (List.takeWhile_prefix _).eq_of_length hlength
    rw [lastSegment, hall]
    simp
  · rfl

theorem lastSegment_eq_nil_iff {text : List Char} :
    lastSegment text = [] ↔ text = [] ∨ text.getLast? = some '\n' := by
  have hnil : text = [] ↔ text.reverse = [] := List.reverse_eq_nil_iff.symm
  rw [lastSegment, List.reverse_eq_nil_iff, ← List.head?_reverse, hnil]
  cases text.reverse with
  | nil => simp
  | cons c cs => simp [List.takeWhile_cons]

/-! ### The lines of a text -/

/-- The first line of what follows the part of it that has been read. -/
theorem head?_linesFrom {number start : Nat} {read text : List Char}
    (h : text ≠ [] ∨ read ≠ []) : (linesFrom number start read text).head? =
      some ⟨number, start, read.reverse ++ text.takeWhile (· != '\n')⟩ := by
  induction text generalizing read with
  | nil =>
      have hread : read ≠ [] := h.resolve_left (fun hne => hne rfl)
      simp [linesFrom, hread]
  | cons c rest ih =>
      rw [linesFrom]
      by_cases hc : c = '\n'
      · simp [hc]
      · rw [if_neg hc, ih (Or.inr (List.cons_ne_nil _ _))]
        simp [hc]

/-- **The line with a given number.**  After some characters, the current line comes after as many
lines as there were newlines, starts after the last of them, and goes on to the next. -/
theorem getElem?_linesFrom {number start : Nat} {read before after : List Char}
    (hread : '\n' ∉ read) (h : after ≠ [] ∨ lastSegment (read.reverse ++ before) ≠ []) :
    (linesFrom number start read (before ++ after))[(read.reverse ++ before).count '\n']? =
      some ⟨number + (read.reverse ++ before).count '\n',
        start + (read.reverse ++ before).length - (lastSegment (read.reverse ++ before)).length,
        lastSegment (read.reverse ++ before) ++ after.takeWhile (· != '\n')⟩ := by
  -- the part of the line that has been read and the characters before the position make one text
  induction before generalizing number start read with
  | nil =>
      have hmem : '\n' ∉ read.reverse := mt List.mem_reverse.1 hread
      rw [List.append_nil] at h ⊢
      rw [lastSegment_of_not_mem hmem] at h ⊢
      rw [List.count_eq_zero.2 hmem, List.nil_append, ← List.head?_eq_getElem?,
        head?_linesFrom (h.imp_right (fun hne hnil => hne (by rw [hnil]; rfl)))]
      simp
  | cons c before ih =>
      rw [List.cons_append, linesFrom]
      by_cases hc : c = '\n'
      · subst hc
        have hmem : '\n' ∉ read.reverse := mt List.mem_reverse.1 hread
        rw [lastSegment_newline] at h ⊢
        rw [if_pos rfl, List.count_append, List.count_eq_zero.2 hmem, List.count_cons_self,
          Nat.zero_add, List.getElem?_cons_succ]
        have hrest := @ih (number + 1) (start + read.length + 1) [] (by simp) (by simpa using h)
        simp only [List.reverse_nil, List.nil_append] at hrest
        rw [hrest]
        simp only [List.length_append, List.length_reverse, List.length_cons, Option.some.injEq,
          Line.mk.injEq, and_true]
        omega
      · have hread' : '\n' ∉ c :: read :=
          List.not_mem_cons_of_ne_of_not_mem (Ne.symm hc) hread
        have hfront : (c :: read).reverse ++ before = read.reverse ++ c :: before := by simp
        have hrest := @ih number start (c :: read) hread' (by rwa [hfront])
        rw [hfront] at hrest
        rw [if_neg hc, hrest]

/-- There are as many lines as newlines, and one more if something follows the last newline. -/
theorem length_linesFrom {number start : Nat} {read text : List Char} (hread : '\n' ∉ read) :
    (linesFrom number start read text).length =
      text.count '\n' + if lastSegment (read.reverse ++ text) = [] then 0 else 1 := by
  induction text generalizing number start read with
  | nil =>
      have hmem : '\n' ∉ read.reverse := mt List.mem_reverse.1 hread
      rw [List.append_nil, lastSegment_of_not_mem hmem]
      cases read with
      | nil => simp [linesFrom]
      | cons c read => simp [linesFrom]
  | cons c text ih =>
      rw [linesFrom]
      by_cases hc : c = '\n'
      · subst hc
        rw [if_pos rfl, List.length_cons, ih List.not_mem_nil, lastSegment_newline,
          List.count_cons_self, List.reverse_nil, List.nil_append, Nat.add_right_comm]
      · have hread' : '\n' ∉ c :: read :=
          List.not_mem_cons_of_ne_of_not_mem (Ne.symm hc) hread
        have hfront : (c :: read).reverse ++ text = read.reverse ++ c :: text := by simp
        rw [if_neg hc, ih hread', hfront, List.count_cons_of_ne hc]

/-- Every line starts inside the text. -/
theorem start_lt_of_mem_linesFrom {number start : Nat} {read text : List Char} {line : Line}
    (h : line ∈ linesFrom number start read text) :
    line.start < start + read.length + text.length := by
  induction text generalizing number start read with
  | nil =>
      cases read with
      | nil => simp [linesFrom] at h
      | cons c read =>
          obtain rfl := List.mem_singleton.1 h
          simp
  | cons c text ih =>
      rw [linesFrom] at h
      rw [List.length_cons]
      split at h
      · rcases List.mem_cons.1 h with rfl | h
        · simp only
          omega
        · have hlt := ih h
          simp only [List.length_nil] at hlt
          omega
      · have hlt := ih h
        rw [List.length_cons] at hlt
        omega

/-! ### The line around a position -/

variable {source : Source} {position : Int}

/-- **The line around a position is the one with its number**, unless the position is at the end and
nothing follows the last newline. -/
theorem getElem?_lines_lineAt
    (h : source.clip position < source.text.length ∨ lastSegment source.text ≠ []) :
    source.lines[(source.lineAt position).number - 1]? = some (source.lineAt position) := by
  have hsome : source.text.drop (source.clip position) ≠ [] ∨
      lastSegment ([].reverse ++ source.text.take (source.clip position)) ≠ [] := by
    rcases Nat.lt_or_ge (source.clip position) source.text.length with hlt | hge
    · exact Or.inl (by simpa using hlt)
    · refine Or.inr ?_
      rw [List.reverse_nil, List.nil_append, List.take_of_length_le hge]
      exact h.resolve_left (Nat.not_lt.2 hge)
  have hline := @getElem?_linesFrom 1 0 [] _ _ List.not_mem_nil hsome
  simp only [List.take_append_drop, List.reverse_nil, List.nil_append, Nat.zero_add] at hline
  rw [lines, lineAt, Nat.add_sub_cancel, hline]
  simp only [Option.some.injEq, Line.mk.injEq, and_true]
  omega

/-- At the end of a text after whose last newline nothing follows, the line starts at the end. -/
theorem lineAt_of_lastSegment_eq_nil (hclip : source.clip position = source.text.length)
    (hsegment : lastSegment source.text = []) :
    source.lineAt position = ⟨source.lines.length + 1, source.text.length, []⟩ := by
  have hlength := @length_linesFrom 1 0 [] source.text List.not_mem_nil
  rw [List.reverse_nil, List.nil_append, if_pos hsegment, Nat.add_zero] at hlength
  rw [lineAt, hclip, List.take_length, List.drop_length, hsegment, lines, hlength]
  rfl

/-- **When the line around a position is a line of the text.** -/
theorem lineAt_mem_lines_iff : source.lineAt position ∈ source.lines ↔
    source.clip position < source.text.length ∨ lastSegment source.text ≠ [] := by
  constructor
  · intro hmem
    by_contra hnot
    rw [not_or, not_not] at hnot
    have hclip : source.clip position = source.text.length :=
      Nat.le_antisymm (source.clip_le position) (Nat.not_lt.1 hnot.1)
    rw [lineAt_of_lastSegment_eq_nil hclip hnot.2] at hmem
    have hlt := start_lt_of_mem_linesFrom hmem
    simp only [List.length_nil] at hlt
    omega
  · exact fun h => List.mem_of_getElem? (getElem?_lines_lineAt h)

/-- The line around the end of a text is the last line, if something follows the last newline. -/
theorem getLast?_lines (hclip : source.clip position = source.text.length)
    (hsegment : lastSegment source.text ≠ []) :
    source.lines.getLast? = some (source.lineAt position) := by
  have hlength := @length_linesFrom 1 0 [] source.text List.not_mem_nil
  rw [List.reverse_nil, List.nil_append, if_neg hsegment] at hlength
  have hnumber : (source.lineAt position).number = source.text.count '\n' + 1 := by
    rw [lineAt, hclip, List.take_length]
  have hline : source.lines[(source.lineAt position).number - 1]? = some (source.lineAt position) :=
    getElem?_lines_lineAt (Or.inr hsegment)
  rw [List.getLast?_eq_getElem?, ← hline, hnumber, lines, hlength]

end Source

/-! ### The lines of issues -/

namespace Issue

variable {text : List Char} {issue : Issue}

/-- The issue that a text ends too early. -/
def endOfFile (text : List Char) : Issue := ⟨Span.empty text.length, .endOfFile⟩

/-- Where an issue starts: inside the text, unless the text ends too early. -/
def Placed (text : List Char) (issue : Issue) : Prop :=
  issue = endOfFile text ∨ 0 ≤ issue.span.start ∧ issue.span.start < text.length

theorem placed_of_covers (h : (Span.mk 0 text.length).Covers issue.span) : issue.Placed text :=
  Or.inr ⟨h.1, Int.lt_of_lt_of_le h.2.1 h.2.2⟩

theorem placed_of_readAll_error (h : Term.readAll text = .error issue) : issue.Placed text := by
  have hinText := Term.inText_of_readAll_error h
  rcases Term.readAll_eq_error_iff.1 h with ⟨position, -, rfl⟩ | ⟨-, -, rfl⟩
  · exact placed_of_covers ⟨hinText.1, Int.lt_succ _, hinText.2.2⟩
  · exact Or.inl rfl

theorem placed_of_readOne_error (h : Term.readOne text = .error issue) : issue.Placed text := by
  have hinText := Term.inText_of_readOne_error h
  rcases Term.readOne_eq_error_iff.1 h with ⟨-, rfl⟩ | ⟨_, _, next, _, -, -, rfl⟩ | ⟨-, h⟩
  · exact Or.inl rfl
  · exact placed_of_covers ⟨hinText.1, Int.lt_succ _, hinText.2.2⟩
  · exact placed_of_readAll_error h

theorem placed_one {α : Type} {ofTerm : Term → Read α}
    (h : ∀ term : Term, term.Orderly → Read.Yields (fun _ => True) term.span (ofTerm term))
    (hissue : issue ∈ (Read.one ofTerm text).issues) : issue.Placed text := by
  unfold Read.one at hissue
  split at hissue
  · next term hterm =>
    obtain ⟨horderly, hlaid⟩ := Term.orderly_of_readAll (Term.readOne_eq_ok_iff.1 hterm)
    obtain ⟨hstart, -, hstop⟩ := hlaid.covers (List.mem_singleton_self _)
    have hcovers := (h term (horderly term (List.mem_singleton_self _))).covers hissue
    exact placed_of_covers ⟨Int.le_trans hstart hcovers.1, hcovers.2.1,
      Int.le_trans hcovers.2.2 hstop⟩
  · next other herror =>
    obtain rfl := List.mem_singleton.1 hissue
    exact placed_of_readOne_error herror

theorem placed_spillRequest (htext : text ≠ [])
    (hissue : issue ∈ (SpillRequest.read text).issues) : issue.Placed text := by
  unfold SpillRequest.read at hissue
  split at hissue
  · next other herror =>
    obtain rfl := List.mem_singleton.1 hissue
    exact placed_of_readAll_error herror
  · next function victim stem hterms =>
    obtain ⟨horderly, hlaid⟩ := Term.orderly_of_readAll hterms
    have hyields : Read.Yields (fun _ => True) ⟨0, text.length⟩
        (SpillRequest.ofTerms function victim stem) :=
      SpillRequest.yields_ofTerms (horderly function (by simp)) hlaid
    exact placed_of_covers (hyields.covers hissue)
  · obtain rfl := List.mem_singleton.1 hissue
    have hlength : 0 < text.length := List.length_pos_of_ne_nil htext
    exact Or.inr ⟨Int.le_refl _, Int.natCast_pos.2 hlength⟩

/-- **The issues that are on a line of the text**: all of them, but the one that the text ends too
early, if the text ends with a newline.  That one is on an empty line after the last. -/
theorem on_line_iff {source : Source} (htext : source.text ≠ [])
    (hissue : issue ∈ (Program.read source.text).issues ∨
      issue ∈ (Function.read source.text).issues ∨
      issue ∈ (SpillRequest.read source.text).issues) :
    (source.lineAt issue.span.start ∈ source.lines ↔
      ¬ (issue = endOfFile source.text ∧ source.text.getLast? = some '\n')) ∧
    (issue = endOfFile source.text → source.text.getLast? ≠ some '\n' →
      source.lines.getLast? = some (source.lineAt issue.span.start)) ∧
    (issue = endOfFile source.text → source.text.getLast? = some '\n' →
      source.lineAt issue.span.start = ⟨source.lines.length + 1, source.text.length, []⟩) := by
  have hplaced : issue.Placed source.text := by
    rcases hissue with hissue | hissue | hissue
    · exact placed_one (fun _ => Program.yields_ofTerm) hissue
    · exact placed_one (fun _ => Function.yields_ofTerm) hissue
    · exact placed_spillRequest htext hissue
  have hsegment : Source.lastSegment source.text = [] ↔ source.text.getLast? = some '\n' := by
    rw [Source.lastSegment_eq_nil_iff, or_iff_right htext]
  rw [Source.lineAt_mem_lines_iff, Ne, hsegment]
  rcases hplaced with rfl | ⟨hnonneg, hlt⟩
  · have hclip : source.clip (endOfFile source.text).span.start = source.text.length :=
      Int.ofNat_inj.1 (Source.clip_eq (Int.natCast_nonneg _) (Int.le_refl _))
    refine ⟨?_, fun _ hlast => ?_, fun _ hlast => ?_⟩
    · simp [hclip]
    · exact Source.getLast?_lines hclip (fun hnil => hlast (hsegment.1 hnil))
    · exact Source.lineAt_of_lastSegment_eq_nil hclip (hsegment.2 hlast)
  · have hclip := Source.clip_eq hnonneg (Int.le_of_lt hlt)
    have hother : issue ≠ endOfFile source.text := by
      rintro rfl
      exact absurd hlt (Int.lt_irrefl _)
    have hinside : source.clip issue.span.start < source.text.length := by omega
    exact ⟨by simp [hinside, hother], fun heq => absurd heq hother, fun heq => absurd heq hother⟩

/-- A function with a slip, on a text that ends with a newline. -/
def slipped : Source := ⟨"slipped.l2", "(@f 0\n (goto)\n)\n".toList⟩

/-- A function that is not closed, on a text that ends without a newline. -/
def torn : Source := ⟨"torn.l2", "(@f 0\n (return)".toList⟩

theorem slipped_on_line :
    (Function.read slipped.text).issues = [⟨⟨7, 13⟩, .unknownInstruction⟩] ∧
      slipped.lineAt 7 ∈ slipped.lines ∧
      (Program.read torn.text).issues = [endOfFile torn.text] ∧
      torn.lines.getLast? = some (torn.lineAt torn.text.length) := by
  have hslipped : (Function.read slipped.text).issues = [⟨⟨7, 13⟩, .unknownInstruction⟩] := rfl
  have htorn : (Program.read torn.text).issues = [endOfFile torn.text] := rfl
  have hgoto : ⟨⟨7, 13⟩, .unknownInstruction⟩ ∈ (Function.read slipped.text).issues := by
    rw [hslipped]
    exact List.mem_singleton_self _
  have hend : endOfFile torn.text ∈ (Program.read torn.text).issues := by
    rw [htorn]
    exact List.mem_singleton_self _
  refine ⟨hslipped, ?_, htorn, ?_⟩
  · exact (on_line_iff (List.cons_ne_nil _ _) (Or.inr (Or.inl hgoto))).1.2 (by decide)
  · exact (on_line_iff (List.cons_ne_nil _ _) (Or.inl hend)).2.1 rfl (by decide)

/-- A list that is not closed, on a text that ends with a newline. -/
def unclosed : Source := ⟨"unclosed.l2", "(\n".toList⟩

/-- The issue is on line 2, but the text has one line only. -/
theorem unclosed_off_line :
    unclosed.text ≠ [] ∧ (Function.read unclosed.text).issues = [endOfFile unclosed.text] ∧
      unclosed.lines = [⟨1, 0, ['(']⟩] ∧
      unclosed.lineAt (endOfFile unclosed.text).span.start = ⟨2, 2, []⟩ ∧
      unclosed.lineAt (endOfFile unclosed.text).span.start ∉ unclosed.lines := by
  refine ⟨List.cons_ne_nil _ _, rfl, rfl, rfl, ?_⟩
  decide

end Issue

end RegisterColouring
