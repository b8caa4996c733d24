/-
**The terms of a text and the table of their places.**

While a text is read, each term can be entered into a table of spans as soon as it is complete.  The
table refuses a key that it has, and a span must not end before it starts.  Neither happens: a term
is complete when its last token is read, so it ends after every term that is in the table already.
No two terms of a text end at the same position, and the position where a term ends can serve as its
key.  Every term of a text that is read, at any depth, is then found in the table with its span.

Main definitions:

* `RegisterColouring.ReadingFault` — what can go wrong when places are asked for;
* `RegisterColouring.Term.tableOf` — the table of the terms that tokens complete;
* `RegisterColouring.SpanTable.Recorded` — a term that is in a table, with all its parts.

Main results:

* `RegisterColouring.Term.Kept.step` — **what one more token does to the table**;
* `RegisterColouring.Term.tableOf_eq_ok` — **the table never refuses a term**, and every term that
  is read is in it.
-/

import RegisterColouring.Proofs.Balance
import RegisterColouring.Proofs.FreshNames
import RegisterColouring.Text.SpanTable

set_option autoImplicit false

namespace RegisterColouring

/-- **What can go wrong when places are asked for**: an element that a list does not have, a key
that a table has already or does not have, a span that ends before it starts, and an address without
a base. -/
inductive ReadingFault where
  | outOfRange (position length : Nat)
  | table (fault : SpanTable.Fault)
  | bounds (start stop : Int)
  | base (fault : Item.BadBase)
  deriving DecidableEq, Repr

/-- A span whose bounds are in order, or the fault. -/
def Span.checked (span : Span) : Except ReadingFault Span :=
  match Span.ofBounds? span.start span.stop with
  | some span => .ok span
  | none => .error (.bounds span.start span.stop)

/-- A span between two positions of a text, the first of them not after the second. -/
def Span.InText (text : List Char) (span : Span) : Prop :=
  0 ≤ span.start ∧ span.start ≤ span.stop ∧ span.stop ≤ text.length

theorem Span.checked_eq_ok {span : Span} (h : span.start ≤ span.stop) :
    span.checked = .ok span := by
  simp [checked, ofBounds?, h]

namespace Term

/-- The key of a term: the position where it ends. -/
def key (term : Term) : String := Numeral.natural term.span.stop.toNat

end Term

namespace SpanTable

/-! ### Tables -/

/-- Enters a term under its key. -/
def enter (table : SpanTable) (term : Term) : Except ReadingFault SpanTable := do
  let span ← term.span.checked
  match table.put term.key span with
  | .ok table => .ok table
  | .error fault => .error (.table fault)

/-- The span under which a term was entered. -/
def placeOf (table : SpanTable) (term : Term) : Except ReadingFault Span :=
  match table.get term.key with
  | .ok span => .ok span
  | .error fault => .error (.table fault)

/-- **A term that is in a table, with all its parts.** -/
inductive Recorded (table : SpanTable) : Term → Prop
  | symbol {span : Span} {value : String} (h : table.placeOf (.symbol span value) = .ok span) :
      Recorded table (.symbol span value)
  | list {span : Span} {elements : List Term} (h : table.placeOf (.list span elements) = .ok span)
      (helements : ∀ element ∈ elements, Recorded table element) :
      Recorded table (.list span elements)

variable {table next : SpanTable} {term other : Term}

theorem Recorded.placeOf_eq (h : Recorded table term) : table.placeOf term = .ok term.span := by
  cases h with
  | symbol h => exact h
  | list h _ => exact h

theorem placeOf_eq_ok_iff {span : Span} :
    table.placeOf term = .ok span ↔ table.entries.lookup term.key = some span := by
  rw [placeOf, get]
  cases table.entries.lookup term.key <;> simp

theorem enter_eq_ok (hspan : term.span.start ≤ term.span.stop)
    (hnew : ∀ entry ∈ table.entries, entry.1 ≠ term.key) :
    table.enter term = .ok { table with entries := (term.key, term.span) :: table.entries } := by
  have hhas : table.has term.key = false := by
    have hnone : table.entries.lookup term.key = none := by
      rw [List.lookup_eq_none_iff]
      intro entry hentry
      simpa using (hnew entry hentry).symm
    rw [has, hnone]
    rfl
  rw [enter, Span.checked_eq_ok hspan]
  simp [bind, Except.bind, put, hhas]

/-- Entering a new term keeps what is in a table. -/
theorem Recorded.cons {entry : String × Span} (hnew : ∀ old ∈ table.entries, old.1 ≠ entry.1)
    (h : Recorded table term) :
    Recorded { table with entries := entry :: table.entries } term := by
  have hplace : ∀ {term : Term} {span : Span}, table.placeOf term = .ok span →
      placeOf { table with entries := entry :: table.entries } term = .ok span := by
    intro term span hspan
    rw [placeOf_eq_ok_iff] at hspan ⊢
    obtain ⟨before, after, hentries, -⟩ := List.lookup_eq_some_iff.1 hspan
    have hne : term.key ≠ entry.1 := hnew (term.key, span) (by rw [hentries]; simp)
    rw [List.lookup_cons, beq_false_of_ne hne]
    exact hspan
  induction h with
  | symbol h => exact .symbol (hplace h)
  | list h _ ih => exact .list (hplace h) ih

end SpanTable

namespace Term

open SpanTable (Recorded)

/-! ### The table of a text -/

/-- The term that one more token completes, if it completes one. -/
def Reading.completes? (reading : Reading) : Token → Option Term
  | .symbol start text => some (.symbol (Token.symbol start text).span (String.ofList text))
  | .opening _ => none
  | .closing start =>
    match reading.pending with
    | [] => none
    | inner :: _ => some (.list ⟨inner.start, start + 1⟩ inner.elements.reverse)

/-- A table with the term that one more token completes. -/
def Reading.enterNext (reading : Reading) (table : SpanTable) (token : Token) :
    Except ReadingFault SpanTable :=
  match reading.completes? token with
  | some term => table.enter term
  | none => .ok table

/-- **The table of the terms that tokens complete**, until reading stops or a token is refused. -/
def tableOf (stops : Reading → Bool) (table : SpanTable) (reading : Reading) :
    List Token → Except ReadingFault SpanTable
  | [] => .ok table
  | token :: tokens =>
    if stops reading then .ok table
    else do
      let table ← reading.enterNext table token
      match reading.step token with
      | .ok next => tableOf stops table next tokens
      | .error _ => .ok table

/-- The terms that the reader has: those in the open lists, and the finished ones. -/
def Reading.terms (reading : Reading) : List Term :=
  reading.pending.flatMap Open.elements ++ reading.finished

/-- **What is known when all tokens before position `low` have been read**: the terms in the table
end there or before, the lists that are open start before it, and the terms that the reader has are
in the table. -/
structure Kept (low : Nat) (table : SpanTable) (reading : Reading) : Prop where
  entries : ∀ entry ∈ table.entries, ∃ start stop : Nat, start < stop ∧ stop ≤ low ∧
    entry = (Numeral.natural stop, ⟨start, stop⟩)
  pending : ∀ inner ∈ reading.pending, inner.start < low
  recorded : ∀ term ∈ reading.terms, Recorded table term

namespace Kept

variable {low high start stop : Nat} {table : SpanTable} {reading next : Reading} {token : Token}
  {term : Term}

theorem empty (source : Source) : Kept 0 (.empty source) .empty where
  entries := by simp [SpanTable.empty]
  pending := by simp [Reading.empty]
  recorded := by simp [Reading.empty, Reading.terms]

theorem mono (h : Kept low table reading) (hle : low ≤ high) : Kept high table reading where
  entries entry hentry := by
    obtain ⟨start, stop, hlt, hstop, heq⟩ := h.entries entry hentry
    exact ⟨start, stop, hlt, Nat.le_trans hstop hle, heq⟩
  pending inner hinner := Nat.lt_of_lt_of_le (h.pending inner hinner) hle
  recorded := h.recorded

/-- A term whose parts are in the table, and that ends after all that are, is entered. -/
theorem enter (h : Kept low table reading) (term : Term) (hspan : term.span = ⟨start, stop⟩)
    (hlt : start < stop) (hlow : low < stop)
    (hparts : ∀ span elements, term = .list span elements →
      ∀ element ∈ elements, Recorded table element) :
    ∃ table', table.enter term = .ok table' ∧ Kept stop table' reading ∧
      Recorded table' term := by
  have hkey : term.key = Numeral.natural stop := by rw [key, hspan]; rfl
  have hnew : ∀ entry ∈ table.entries, entry.1 ≠ term.key := by
    intro entry hentry heq
    obtain ⟨_, stop', -, hle, rfl⟩ := h.entries entry hentry
    rw [hkey] at heq
    have hstop := Numeral.natural_inj heq
    omega
  have hplace : SpanTable.placeOf { table with entries := (term.key, term.span) :: table.entries }
      term = .ok term.span := by
    rw [SpanTable.placeOf_eq_ok_iff, List.lookup_cons]
    simp
  refine ⟨_, SpanTable.enter_eq_ok (by rw [hspan]; simp only; omega) hnew, ?_, ?_⟩
  · refine ⟨?_, ?_, fun term hterm => (h.recorded term hterm).cons hnew⟩
    · intro entry hentry
      rcases List.mem_cons.1 hentry with rfl | hentry
      · exact ⟨start, stop, hlt, Nat.le_refl _, by rw [hkey, hspan]⟩
      · obtain ⟨start', stop', hlt', hle, rfl⟩ := h.entries entry hentry
        exact ⟨start', stop', hlt', by omega, rfl⟩
    · intro inner hinner
      exact Nat.lt_trans (h.pending inner hinner) hlow
  · cases term with
    | symbol span value => exact .symbol hplace
    | list span elements =>
        exact .list hplace fun element helement =>
          (hparts span elements rfl element helement).cons hnew

theorem add (h : Kept low table reading) (hterm : Recorded table term) :
    Kept low table (reading.add term) := by
  obtain ⟨pending, finished⟩ := reading
  refine ⟨h.entries, ?_, ?_⟩
  · intro inner hinner
    cases pending with
    | nil => exact h.pending inner hinner
    | cons first outer =>
        rcases List.mem_cons.1 hinner with rfl | hinner
        · exact h.pending first (List.mem_cons_self ..)
        · exact h.pending inner (List.mem_cons_of_mem _ hinner)
  · intro other hother
    have hcases : other = term ∨ other ∈ Reading.terms ⟨pending, finished⟩ := by
      cases pending with
      | nil => simpa [Reading.add, Reading.terms] using hother
      | cons first outer => simpa [Reading.add, Reading.terms, or_assoc] using hother
    rcases hcases with rfl | hother
    · exact hterm
    · exact h.recorded other hother

/-- What is known does not depend on the innermost list that is open. -/
theorem outer {inner : Open} {outer : List Open} {finished : List Term}
    (h : Kept low table ⟨inner :: outer, finished⟩) :
    Kept low table ⟨outer, finished⟩ ∧ ∀ element ∈ inner.elements, Recorded table element := by
  have hterms : Reading.terms ⟨inner :: outer, finished⟩ =
      inner.elements ++ Reading.terms ⟨outer, finished⟩ := by
    rw [Reading.terms, List.flatMap_cons, List.append_assoc]
    rfl
  have hrecorded := h.recorded
  rw [hterms] at hrecorded
  refine ⟨⟨h.entries, fun other hother => h.pending other (List.mem_cons_of_mem _ hother), ?_⟩, ?_⟩
  · exact fun term hterm => hrecorded term (List.mem_append_right _ hterm)
  · exact fun element helement => hrecorded element (List.mem_append_left _ helement)

/-- **What one more token does to the table**: the term it completes, if it completes one, is
entered. -/
theorem step (h : Kept low table reading) (hstart : low ≤ token.start) (htext : token.text ≠ []) :
    ∃ table', reading.enterNext table token = .ok table' ∧
      Kept (token.start + token.text.length) table' reading ∧
      ∀ next, reading.step token = .ok next →
        Kept (token.start + token.text.length) table' next := by
  have hpos := List.length_pos_of_ne_nil htext
  cases token with
  | symbol start text =>
      obtain ⟨table', henter, hkept, hrecorded⟩ :=
        h.enter (.symbol (Token.symbol start text).span (String.ofList text)) rfl
          (Nat.lt_add_of_pos_right hpos) (Nat.lt_of_le_of_lt hstart (Nat.lt_add_of_pos_right hpos))
          (fun _ _ heq => nomatch heq)
      refine ⟨table', henter, hkept, ?_⟩
      intro next hnext
      obtain rfl := Except.ok.inj hnext
      exact hkept.add hrecorded
  | opening start =>
      have hmono : Kept (start + 1) table reading := h.mono (Nat.le_succ_of_le hstart)
      refine ⟨table, rfl, hmono, ?_⟩
      intro next hnext
      obtain rfl := Except.ok.inj hnext
      refine ⟨hmono.entries, ?_, hmono.recorded⟩
      intro inner hinner
      rcases List.mem_cons.1 hinner with rfl | hinner
      · exact Nat.lt_succ_self start
      · exact hmono.pending inner hinner
  | closing start =>
      obtain ⟨pending, finished⟩ := reading
      cases pending with
      | nil =>
          exact ⟨table, rfl, h.mono (Nat.le_succ_of_le hstart), fun next hnext => by
            simp [Reading.step] at hnext⟩
      | cons inner outer =>
          have hinner := h.pending inner (List.mem_cons_self ..)
          have hlow : low ≤ start := hstart
          obtain ⟨table', henter, hkept, hrecorded⟩ :=
            h.enter (.list ⟨inner.start, start + 1⟩ inner.elements.reverse) rfl
              (show inner.start < start + 1 by omega) (by omega) (by
                rintro _ _ ⟨⟩ element helement
                exact h.outer.2 element (List.mem_reverse.1 helement))
          refine ⟨table', henter, hkept, ?_⟩
          intro next hnext
          obtain rfl := Except.ok.inj hnext
          exact hkept.outer.1.add hrecorded

end Kept

/-- What the reader has in the end. -/
theorem recorded_of_finish {low length : Nat} {table : SpanTable} {reading : Reading}
    {terms : List Term} (h : Kept low table reading) (hfinish : reading.finish length = .ok terms) :
    ∀ term ∈ terms, Recorded table term := by
  obtain ⟨pending, finished⟩ := reading
  cases pending with
  | cons inner outer => simp [Reading.finish] at hfinish
  | nil =>
      obtain rfl := Except.ok.inj hfinish
      intro term hterm
      exact h.recorded term (by simpa [Reading.terms] using hterm)

/-- **The table never refuses a term**, and every term that is read is in it, with a span in the
text.  Reading may stop early, as long as it then reads nothing. -/
theorem tableOf_eq_ok (read : Reading → List Token → Except Issue (List Term))
    (stops : Reading → Bool) {low high length : Nat} {table : SpanTable} {reading : Reading}
    {tokens : List Token} (hend : ∀ reading, read reading [] = reading.finish length)
    (hread : ∀ reading token tokens terms, read reading (token :: tokens) = .ok terms →
      stops reading = false ∧ ∃ next, reading.step token = .ok next ∧ read next tokens = .ok terms)
    (hspread : Token.Spread low high tokens) (h : Kept low table reading) :
    ∃ table', tableOf stops table reading tokens = .ok table' ∧
      (∀ entry ∈ table'.entries, ∃ start stop : Nat, start < stop ∧ stop ≤ high ∧
        entry = (Numeral.natural stop, ⟨start, stop⟩)) ∧
      ∀ terms, read reading tokens = .ok terms → ∀ term ∈ terms, Recorded table' term := by
  induction tokens generalizing low table reading with
  | nil =>
      refine ⟨table, rfl, (h.mono hspread).entries, ?_⟩
      intro terms hterms
      exact recorded_of_finish h ((hend reading).symm.trans hterms)
  | cons token tokens ih =>
      obtain ⟨hstart, htext, hrest⟩ := hspread
      have hle := hrest.le
      rw [tableOf]
      split
      · next hstops =>
        refine ⟨table, rfl, (h.mono (by omega)).entries, ?_⟩
        intro terms hterms
        have hnot := (hread reading token tokens terms hterms).1
        exact absurd (hstops.symm.trans hnot) (by simp)
      · obtain ⟨table', henter, hsame, hkept⟩ := h.step hstart htext
        rw [henter]
        cases hstep : reading.step token with
        | ok next =>
            obtain ⟨final, hfinal, hentries, hrecorded⟩ := ih hrest (hkept next hstep)
            refine ⟨final, hfinal, hentries, ?_⟩
            intro terms hterms
            obtain ⟨-, next', hnext, hterms⟩ := hread reading token tokens terms hterms
            obtain rfl := Except.ok.inj (hstep.symm.trans hnext)
            exact hrecorded terms hterms
        | error issue =>
            refine ⟨table', rfl, (hsame.mono hle).entries, ?_⟩
            intro terms hterms
            obtain ⟨-, next, hnext, -⟩ := hread reading token tokens terms hterms
            exact absurd (hstep.symm.trans hnext) (by simp)

/-! ### Reading with a table -/

/-- What is read from a text, with the table of its terms; a complaint is about a proper span. -/
def recorded {α : Type} (stops : Reading → Bool) (read : List Char → Except Issue α)
    (source : Source) : Except ReadingFault (Except Issue (α × SpanTable)) := do
  let table ← tableOf stops (.empty source) .empty (Token.scan source.text)
  match read source.text with
  | .ok value => .ok (.ok (value, table))
  | .error issue => do
    let span ← issue.span.checked
    .ok (.error ⟨span, issue.complaint⟩)

/-- All terms of a text, with the table of the terms in it. -/
def readAllRecorded (source : Source) :
    Except ReadingFault (Except Issue (List Term × SpanTable)) :=
  recorded (fun _ => false) readAll source

/-- The only term of a text, with the table of the terms in it. -/
def readOneRecorded (source : Source) : Except ReadingFault (Except Issue (Term × SpanTable)) :=
  recorded Reading.isSingle readOne source

theorem recorded_eq_ok {α : Type} {stops : Reading → Bool} {read : List Char → Except Issue α}
    {source : Source} {table : SpanTable}
    (htable : tableOf stops (.empty source) .empty (Token.scan source.text) = .ok table)
    (hspan : ∀ issue, read source.text = .error issue → issue.span.InText source.text) :
    recorded stops read source = .ok ((read source.text).map fun value => (value, table)) := by
  rw [recorded, htable]
  cases hread : read source.text with
  | ok value => simp [bind, Except.bind, Except.map]
  | error issue =>
      have hchecked := Span.checked_eq_ok (hspan issue hread).2.1
      simp [bind, Except.bind, Except.map, hchecked]

theorem scan_spread (text : List Char) : Token.Spread 0 text.length (Token.scan text) := by
  have hspread := (splits_iff.2 (Eq.refl (Token.scan text))).spread
  rwa [Nat.zero_add] at hspread

theorem inText_of_entries {text : List Char} {table : SpanTable}
    (h : ∀ entry ∈ table.entries, ∃ start stop : Nat, start < stop ∧ stop ≤ text.length ∧
      entry = (Numeral.natural stop, ⟨start, stop⟩)) :
    ∀ entry ∈ table.entries, entry.2.InText text := by
  intro entry hentry
  obtain ⟨start, stop, hlt, hle, rfl⟩ := h entry hentry
  refine ⟨?_, ?_, ?_⟩ <;> simp only <;> omega

/-- The span of a token's first character is in the text. -/
theorem inText_single {text : List Char} {token : Token} (h : token ∈ Token.scan text) :
    (Span.single token.start).InText text := by
  obtain ⟨-, hlt, hle⟩ := (scan_spread text).mem h
  refine ⟨?_, ?_, ?_⟩ <;> simp only [Span.single] <;> omega

theorem inText_empty (text : List Char) : (Span.empty text.length).InText text := by
  refine ⟨?_, ?_, ?_⟩ <;> simp only [Span.empty] <;> omega

theorem inText_of_readAll_error {text : List Char} {issue : Issue}
    (h : readAll text = .error issue) : issue.span.InText text := by
  rcases readAll_eq_error_iff.1 h with ⟨position, ⟨front, rest, hsplit, -⟩, rfl⟩ | ⟨-, -, rfl⟩
  · have hmem : Token.closing position ∈ Token.scan text := by rw [hsplit]; simp
    exact inText_single hmem
  · exact inText_empty text

theorem inText_of_readOne_error {text : List Char} {issue : Issue}
    (h : readOne text = .error issue) : issue.span.InText text := by
  rcases readOne_eq_error_iff.1 h with ⟨-, rfl⟩ | ⟨front, term, next, rest, hsplit, -, rfl⟩ | ⟨-, h⟩
  · exact inText_empty text
  · exact inText_single (by rw [hsplit]; simp)
  · exact inText_of_readAll_error h

/-- **All terms of a text are read with the table of the terms in it**, and nothing goes wrong. -/
theorem readAllRecorded_eq_ok (source : Source) :
    ∃ table : SpanTable, readAllRecorded source =
        .ok ((readAll source.text).map fun terms => (terms, table)) ∧
      (∀ entry ∈ table.entries, entry.2.InText source.text) ∧
      ∀ terms, readAll source.text = .ok terms → ∀ term ∈ terms, Recorded table term := by
  obtain ⟨table, htable, hentries, hrecorded⟩ :=
    tableOf_eq_ok (readTokens source.text.length) (fun _ => false)
      (fun _ => rfl) (by
        intro reading token tokens terms hterms
        rw [readTokens] at hterms
        split at hterms
        · next next hstep => exact ⟨rfl, next, hstep, hterms⟩
        · simp at hterms) (scan_spread source.text) (Kept.empty source)
  exact ⟨table, recorded_eq_ok htable fun _ => inText_of_readAll_error,
    inText_of_entries hentries, hrecorded⟩

/-- **The only term of a text is read with the table of the terms in it.** -/
theorem readOneRecorded_eq_ok (source : Source) :
    ∃ table : SpanTable, readOneRecorded source =
        .ok ((readOne source.text).map fun term => (term, table)) ∧
      (∀ entry ∈ table.entries, entry.2.InText source.text) ∧
      ∀ term, readOne source.text = .ok term → Recorded table term := by
  obtain ⟨table, htable, hentries, hrecorded⟩ :=
    tableOf_eq_ok (readSingle source.text.length) Reading.isSingle
      (fun _ => rfl) (by
        intro reading token tokens terms hterms
        rw [readSingle] at hterms
        split at hterms
        · simp at hterms
        · next hsingle =>
          split at hterms
          · next next hstep => exact ⟨Bool.eq_false_iff.2 hsingle, next, hstep, hterms⟩
          · simp at hterms) (scan_spread source.text) (Kept.empty source)
  refine ⟨table, recorded_eq_ok htable fun _ => inText_of_readOne_error,
    inText_of_entries hentries, ?_⟩
  intro term hterm
  rw [readOne] at hterm
  split at hterm
  · next first rest hread =>
    obtain rfl := Except.ok.inj hterm
    exact hrecorded _ hread first (List.mem_cons_self ..)
  · simp at hterm
  · simp at hterm

end Term

end RegisterColouring
