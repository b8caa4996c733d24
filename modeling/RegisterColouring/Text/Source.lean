/-
**Source texts, spans and lines.**

A source text is a named sequence of characters.  Positions count characters from zero, a span is a
pair of positions, and a line is a stretch of text between two newlines.

Two views of the lines are kept apart.  `Source.lines` lists the lines of the text: a newline ends a
line, and text after the last newline is a line of its own.  `Source.lineAt` finds the line around a
position; a position outside the text belongs to whatever follows the last newline, which may be
nothing at all.

Main definitions:

* `RegisterColouring.Span`, `RegisterColouring.Span.ofBounds?` — spans, and the ones whose bounds are
  in order;
* `RegisterColouring.Source`, `RegisterColouring.Line` — texts and their lines;
* `RegisterColouring.Source.lines`, `RegisterColouring.Source.lineAt` — all lines, and the one around
  a position;
* `RegisterColouring.Source.report` — a message with the place it is about.
-/

import RegisterColouring.Text.Numeral

set_option autoImplicit false

namespace RegisterColouring

/-! ### Spans -/

/-- The characters from position `start` up to, and without, position `stop`. -/
structure Span where
  start : Int
  stop : Int
  deriving DecidableEq, Repr

namespace Span

/-- The span between two positions, if they are in order. -/
def ofBounds? (start stop : Int) : Option Span :=
  if start ≤ stop then some ⟨start, stop⟩ else none

/-- How many characters a span covers, as a signed number of 64 bits. -/
def length (span : Span) : Int := (span.stop - span.start).bmod UInt64.size

/-- The span of one character. -/
def single (position : Nat) : Span := ⟨position, position + 1⟩

/-- The empty span at a position. -/
def empty (position : Nat) : Span := ⟨position, position⟩

@[simp] theorem length_single (position : Nat) : (single position).length = 1 := by
  have h : (position : Int) + 1 - position = 1 := by omega
  simp only [length, single, h]; decide

@[simp] theorem length_empty (position : Nat) : (empty position).length = 0 := by
  simp [length, empty]

/-- A span that is not too long covers the characters between its ends. -/
theorem length_eq {span : Span} (h : span.start ≤ span.stop)
    (h' : span.stop - span.start ≤ Int64.maxValue.toInt) :
    span.length = span.stop - span.start := by
  rw [Int64.toInt_maxValue] at h'
  apply Int.bmod_eq_of_le
  · omega
  · simp only [UInt64.size]
    omega

end Span

/-! ### Lines -/

/-- A line of a text: its number, counted from one, the position of its first character, and its
characters, without the newline that ends it. -/
structure Line where
  number : Nat
  start : Nat
  text : List Char
  deriving DecidableEq, Repr

/-- How many characters a line has. -/
def Line.length (line : Line) : Nat := line.text.length

/-- A text with the name of the file that holds it. -/
structure Source where
  file : String
  text : List Char
  deriving DecidableEq, Repr

namespace Source

/-- The characters after the last newline. -/
def lastSegment (text : List Char) : List Char :=
  (text.reverse.takeWhile (· != '\n')).reverse

/-- The lines of a text, given the number and start of the first line and, in reverse, the part of
it that has been read. -/
def linesFrom (number start : Nat) (read : List Char) : List Char → List Line
  | [] => if read.isEmpty then [] else [⟨number, start, read.reverse⟩]
  | c :: rest =>
    if c = '\n' then
      ⟨number, start, read.reverse⟩ :: linesFrom (number + 1) (start + read.length + 1) [] rest
    else linesFrom number start (c :: read) rest

/-- **The lines of a source text.** -/
def lines (source : Source) : List Line := linesFrom 1 0 [] source.text

/-- A position of the text, or the end of the text for a position that is outside it. -/
def clip (source : Source) (position : Int) : Nat :=
  if 0 ≤ position ∧ position < source.text.length then position.toNat else source.text.length

/-- **The line around a position.**  A newline belongs to the line it ends, and a position outside
the text to what follows the last newline. -/
def lineAt (source : Source) (position : Int) : Line :=
  let before := source.text.take (source.clip position)
  let after := source.text.drop (source.clip position)
  { number := before.count '\n' + 1
    start := before.length - (lastSegment before).length
    text := lastSegment before ++ after.takeWhile (· != '\n') }

/-- A message about a span, after the file and the number of the line where the span starts. -/
def report (source : Source) (span : Span) (message : String) : String :=
  source.file ++ ":" ++ Numeral.natural (source.lineAt span.start).number ++ ": " ++ message

/-- The position of a text's end is never outside it. -/
theorem clip_le (source : Source) (position : Int) :
    source.clip position ≤ source.text.length := by
  unfold clip
  split <;> omega

end Source

end RegisterColouring
