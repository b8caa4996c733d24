/-
**Tables always print, and are aligned.**

A cell is cut where it is longer than its column is wide, to two bytes less than that.  For this the
column has to be at least two bytes wide.  Adding rows only widens columns, and a limit never makes a
column narrower than three bytes.  So every cell fits its column: it is no longer than the column is
wide, or the column has three bytes at least, and then it can be cut.

A cell that fits has no more characters than its column has bytes, since characters are no shorter
than a byte, and is filled up with spaces.  As long as no escapes are printed, every line has
therefore as many characters as all columns have bytes, and three more for each column.

Main definitions:

* `RegisterColouring.Table.Change` — what can be done to a table;
* `RegisterColouring.Table.Fitted` — **tables whose cells fit**;
* `RegisterColouring.Table.print?` — printing that gives up where a cell cannot be cut;
* `RegisterColouring.Table.line`, `RegisterColouring.Table.lineWidth` — a printed line, and how many
  characters it is to have.

Main results:

* `RegisterColouring.Table.Fitted.change`, `RegisterColouring.Table.Fitted.changeAll` — **what is done
  to a table keeps its cells fitting**;
* `RegisterColouring.Table.Fitted.print?_eq` — printing never gives up;
* `RegisterColouring.Table.length_decode_line` — **lines have the same number of characters**;
* `RegisterColouring.Table.prints_aligned` — **tables always print, and are aligned**.
-/

import Mathlib.Data.List.Forall2
import RegisterColouring.Proofs.Characters
import RegisterColouring.Proofs.LineSplitting

set_option autoImplicit false

namespace RegisterColouring

namespace Table

/-! ### Changes -/

/-- What can be done to a table. -/
inductive Change where
  | addRow (texts : List String)
  | limitWidth (column limit : Nat)
  | setEscape (column row : Nat) (escape : Escape)
  | enableEscapes (enabled : Bool)

/-- A table after a change. -/
def change (table : Table) : Change → Except Fault Table
  | .addRow texts => table.addRow texts
  | .limitWidth column limit => table.limitWidth column limit
  | .setEscape column row escape => table.setEscape column row escape
  | .enableEscapes enabled => .ok (table.enableEscapes enabled)

/-- A table after some changes, one after the other. -/
def changeAll (table : Table) : List Change → Except Fault Table
  | [] => .ok table
  | change :: changes =>
    match table.change change with
    | .error fault => .error fault
    | .ok next => next.changeAll changes

namespace Change

/-- The row that a change adds. -/
def row? : Change → Option (List String)
  | addRow texts => some texts
  | _ => none

/-- Whether a change is proper for a table with some columns and rows: a row has as many cells as
there are columns, and columns and rows exist. -/
def isProper (columns height : Nat) : Change → Bool
  | addRow texts => texts.length = columns
  | limitWidth column _ => column < columns
  | setEscape column row _ => column < columns && row < height
  | enableEscapes _ => true

/-- Whether changes are proper one after the other. -/
def areProper (columns : Nat) : Nat → List Change → Bool
  | _, [] => true
  | height, change :: changes =>
    change.isProper columns height &&
      areProper columns (height + change.row?.toList.length) changes

end Change

/-! ### Cells that fit -/

/-- **A cell fits its column**: it is no longer than the column is wide, or can be cut. -/
def Fits (width : Nat) (cell : Cell) : Prop :=
  (bytesOf cell.text).length ≤ width ∨ leastWidth ≤ width

theorem Fits.mono {width wider : Nat} {cell : Cell} (h : Fits width cell) (hle : width ≤ wider) :
    Fits wider cell :=
  h.imp (fun hfits => Nat.le_trans hfits hle) (fun hleast => Nat.le_trans hleast hle)

/-- A limit is no smaller than the least width, so a cell that fits can be cut if need be. -/
theorem Fits.limit {width : Nat} {cell : Cell} (h : Fits width cell) (limit : Nat) :
    Fits (min width (max limit leastWidth)) cell := by
  rcases Nat.le_total width (max limit leastWidth) with hle | hle
  · rwa [Nat.min_eq_left hle]
  · rw [Nat.min_eq_right hle]
    exact Or.inr (Nat.le_max_right _ _)

/-- **Tables whose cells fit**, with a number of columns. -/
structure Fitted (columns : Nat) (table : Table) : Prop where
  widths : table.widths.length = columns
  rows : ∀ cells ∈ table.rows, List.Forall₂ Fits table.widths cells

/-- The texts of a table. -/
def texts (table : Table) : List (List String) := table.rows.map fun cells => cells.map Cell.text

theorem fitted_ofColumns (columns : Nat) : Fitted columns (ofColumns columns) :=
  ⟨List.length_replicate, by simp [ofColumns]⟩

theorem map_modify_of_eq {α β : Type} {f : α → α} {g : α → β} (h : ∀ a, g (f a) = g a)
    (list : List α) (i : Nat) : (list.modify i f).map g = list.map g := by
  apply List.ext_getElem?
  intro j
  rw [List.getElem?_map, List.getElem?_modify, List.getElem?_map]
  split <;> simp [h, Function.comp_def]

theorem mem_modify_cases {α : Type} {f : α → α} {list : List α} {i : Nat} {a : α}
    (h : a ∈ list.modify i f) : a ∈ list ∨ ∃ b ∈ list, a = f b := by
  obtain ⟨j, hj⟩ := List.mem_iff_getElem?.1 h
  rw [List.getElem?_modify] at hj
  obtain ⟨b, hb, rfl⟩ := Option.map_eq_some_iff.1 hj
  have hmem := List.mem_of_getElem? hb
  split
  · exact Or.inr ⟨b, hmem, rfl⟩
  · exact Or.inl hmem

section Rows

variable {widths : List Nat} {cells : List Cell} {texts : List String}

theorem forall₂_widen (h : List.Forall₂ Fits widths cells) (hlength : texts.length = widths.length) :
    List.Forall₂ Fits
      (widths.zipWith (fun width text => max width (bytesOf text).length) texts) cells := by
  induction h generalizing texts with
  | nil => simp
  | cons hfits _ ih =>
      cases texts with
      | nil => simp at hlength
      | cons text texts =>
          exact .cons (hfits.mono (Nat.le_max_left _ _)) (ih (Nat.succ.inj hlength))

theorem forall₂_added (hlength : texts.length = widths.length) :
    List.Forall₂ Fits (widths.zipWith (fun width text => max width (bytesOf text).length) texts)
      (texts.map fun text => ⟨text, Escape.plain⟩) := by
  induction texts generalizing widths with
  | nil => simp
  | cons text texts ih =>
      cases widths with
      | nil => simp at hlength
      | cons width widths =>
          exact .cons (Or.inl (Nat.le_max_right _ _)) (ih (Nat.succ.inj hlength))

theorem forall₂_limit (h : List.Forall₂ Fits widths cells) (column limit : Nat) :
    List.Forall₂ Fits (widths.modify column (min · (max limit leastWidth))) cells := by
  induction h generalizing column with
  | nil => simp
  | cons hfits h ih =>
      cases column with
      | zero => exact .cons (hfits.limit limit) h
      | succ column => exact .cons hfits (ih column)

theorem forall₂_escape (h : List.Forall₂ Fits widths cells) (column : Nat) (escape : Escape) :
    List.Forall₂ Fits widths (cells.modify column ({ · with escape })) := by
  induction h generalizing column with
  | nil => simp
  | cons hfits h ih =>
      cases column with
      | zero => exact .cons hfits h
      | succ column => exact .cons hfits (ih column)

end Rows

namespace Fitted

variable {columns : Nat} {table : Table}

/-- A place inside the table holds a cell. -/
theorem exists_cell (h : Fitted columns table) {column row : Nat} (hcolumn : column < columns)
    (hrow : row < table.height) : ∃ cell, table.cell column row = .ok cell := by
  obtain ⟨cells, hcells⟩ : ∃ cells, table.rows[row]? = some cells :=
    ⟨_, List.getElem?_eq_getElem hrow⟩
  have hlength : column < cells.length := by
    rw [← (h.rows cells (List.mem_of_getElem? hcells)).length_eq, h.widths]
    exact hcolumn
  exact ⟨_, by rw [cell, hcells, Option.bind_some, List.getElem?_eq_getElem hlength]⟩

/-- **A proper change is made**: the cells fit afterwards, and but for an added row their texts are
the same. -/
theorem change (h : Fitted columns table) {change : Change}
    (hproper : change.isProper columns table.height = true) :
    ∃ next, table.change change = .ok next ∧ Fitted columns next ∧
      next.texts = table.texts ++ change.row?.toList := by
  cases change with
  | addRow texts =>
      have hlength : texts.length = table.widths.length := by
        simpa [Change.isProper, h.widths] using hproper
      refine ⟨_, if_pos hlength, ⟨?_, ?_⟩, ?_⟩
      · rw [List.length_zipWith, hlength, Nat.min_self, h.widths]
      · intro cells hcells
        rcases List.mem_append.1 hcells with hcells | hcells
        · exact forall₂_widen (h.rows cells hcells) hlength
        · obtain rfl := List.mem_singleton.1 hcells
          exact forall₂_added hlength
      · simp [Table.texts, Change.row?, Function.comp_def]
  | limitWidth column limit =>
      have hcolumn : column < table.widths.length := by
        simpa [Change.isProper, h.widths] using hproper
      refine ⟨_, if_pos hcolumn, ⟨?_, ?_⟩, (List.append_nil _).symm⟩
      · rw [List.length_modify, h.widths]
      · exact fun cells hcells => forall₂_limit (h.rows cells hcells) column limit
  | setEscape column row escape =>
      simp only [Change.isProper, Bool.and_eq_true, decide_eq_true_eq] at hproper
      obtain ⟨cell, hcell⟩ := h.exists_cell hproper.1 hproper.2
      have hchange : table.change (.setEscape column row escape) = .ok { table with
          rows := table.rows.modify row fun cells => cells.modify column ({ · with escape }) } := by
        simp only [Table.change, setEscape, hcell]
      refine ⟨_, hchange, ⟨h.widths, ?_⟩, ?_⟩
      · intro cells hcells
        rcases mem_modify_cases hcells with hcells | ⟨before, hbefore, rfl⟩
        · exact h.rows cells hcells
        · exact forall₂_escape (h.rows before hbefore) column escape
      · have hcells : ∀ cells : List Cell,
            (cells.modify column ({ · with escape })).map Cell.text = cells.map Cell.text := by
          intro cells
          apply map_modify_of_eq
          intro cell
          rfl
        exact (map_modify_of_eq hcells table.rows row).trans (List.append_nil _).symm
  | enableEscapes enabled => exact ⟨_, rfl, ⟨h.widths, h.rows⟩, (List.append_nil _).symm⟩

/-- **All proper changes are made.** -/
theorem changeAll (h : Fitted columns table) {changes : List Change}
    (hproper : Change.areProper columns table.height changes = true) :
    ∃ last, table.changeAll changes = .ok last ∧ Fitted columns last ∧
      last.texts = table.texts ++ changes.filterMap Change.row? := by
  induction changes generalizing table with
  | nil => exact ⟨table, rfl, h, (List.append_nil _).symm⟩
  | cons change changes ih =>
      simp only [Change.areProper, Bool.and_eq_true] at hproper
      obtain ⟨next, hnext, hfitted, htexts⟩ := h.change hproper.1
      have hheight : next.height = table.height + change.row?.toList.length := by
        have hlength := congrArg List.length htexts
        simpa [Table.texts, height] using hlength
      obtain ⟨last, hlast, hfitted, htexts'⟩ := ih hfitted (by rw [hheight]; exact hproper.2)
      refine ⟨last, by simp only [Table.changeAll, hnext, hlast], hfitted, ?_⟩
      rw [htexts', htexts, List.append_assoc, List.filterMap_cons]
      cases change.row? <;> rfl

end Fitted

/-! ### Printing that can give up -/

/-- The first bytes of a sequence, up to a position that has to be inside it. -/
def slice? (bytes : List UInt8) (stop : Int) : Option (List UInt8) :=
  if 0 ≤ stop ∧ stop ≤ bytes.length then some (bytes.take stop.toNat) else none

/-- The bytes of a cell cut to a width, if they can be. -/
def cut? (width : Nat) (bytes : List UInt8) : Option (List UInt8) :=
  if width < bytes.length then (slice? bytes (width - 2)).map (· ++ bytesOf "..") else some bytes

/-- A cell as it is printed, when its bytes are cut. -/
def printCut (escapes : Bool) (width : Nat) (cell : Cell) (bytes : List UInt8) : List UInt8 :=
  bytesOf (cell.escape.marks escapes).1 ++ 0x20 :: fill width bytes ++
    bytesOf (cell.escape.marks escapes).2 ++ bytesOf " |"

/-- The cells of a row as they are printed, if every cell has a column and can be cut. -/
def printCells? (escapes : Bool) : List Nat → List Cell → Option (List UInt8)
  | _, [] => some []
  | [], _ :: _ => none
  | width :: widths, cell :: cells =>
    (cut? width (bytesOf cell.text)).bind fun bytes =>
      (printCells? escapes widths cells).map fun rest => printCut escapes width cell bytes ++ rest

/-- Rows as they are printed, if all their cells can be. -/
def printRows? (escapes : Bool) (widths : List Nat) : List (List Cell) → Option (List UInt8)
  | [] => some []
  | cells :: rows =>
    (printCells? escapes widths cells).bind fun line =>
      (printRows? escapes widths rows).map fun rest => line ++ bytesOf "\n" ++ rest

/-- **A printed table, if all its cells can be printed.** -/
def print? (table : Table) : Option (List UInt8) :=
  printRows? table.escapes table.widths table.rows

variable {escapes : Bool} {width : Nat} {cell : Cell} {widths : List Nat} {cells : List Cell}

theorem cut?_eq (h : Fits width cell) :
    cut? width (bytesOf cell.text) = some (cut width (bytesOf cell.text)) := by
  unfold cut? cut
  split
  · next hlong =>
    -- the column has three bytes at least
    have hleast : leastWidth ≤ width := h.resolve_left (Nat.not_le.2 hlong)
    rw [leastWidth] at hleast
    have hstop : (width : Int) - 2 = ((width - 2 : Nat) : Int) := by omega
    rw [hstop, slice?, if_pos (by omega)]
    rfl
  · rfl

theorem printCells?_eq (h : List.Forall₂ Fits widths cells) :
    printCells? escapes widths cells =
      some (widths.zipWith (printCell escapes) cells).flatten := by
  induction h with
  | nil => rfl
  | cons hfits _ ih =>
      rw [printCells?, cut?_eq hfits, ih]
      rfl

theorem Fitted.print?_eq {columns : Nat} {table : Table} (h : Fitted columns table) :
    table.print? = some table.print := by
  have hrows : ∀ rows : List (List Cell),
      (∀ cells ∈ rows, List.Forall₂ Fits table.widths cells) →
      printRows? table.escapes table.widths rows =
        some (rows.flatMap (printRow table.escapes table.widths)) := by
    intro rows hfits
    induction rows with
    | nil => rfl
    | cons cells rows ih =>
        rw [List.forall_mem_cons] at hfits
        rw [printRows?, printCells?_eq hfits.1, ih hfits.2]
        rfl
  exact hrows table.rows h.rows

/-! ### Characters of a line -/

/-- A row as it is printed without escapes, before the newline. -/
def line (widths : List Nat) (cells : List Cell) : List UInt8 :=
  (widths.zipWith (printCell false) cells).flatten

/-- How many characters a line is to have: as many as its columns are wide, a space before each, and
a space and a bar after each. -/
def lineWidth : List Nat → Nat
  | [] => 0
  | width :: widths => width + 3 + lineWidth widths

/-- A cell that is cut has as many bytes as its column is wide, and any other no more. -/
theorem length_cut_le (h : Fits width cell) : (cut width (bytesOf cell.text)).length ≤ width := by
  unfold cut
  split
  · next hlong =>
    have hleast : leastWidth ≤ width := h.resolve_left (Nat.not_le.2 hlong)
    have hdots : (bytesOf "..").length = 2 := by decide
    rw [leastWidth] at hleast
    rw [List.length_append, List.length_take, hdots]
    omega
  · next hshort => exact Nat.not_lt.1 hshort

/-- A cell that is printed without escapes ends with a bar. -/
theorem printCell_eq (width : Nat) (cell : Cell) :
    printCell false width cell =
      0x20 :: (fill width (cut width (bytesOf cell.text)) ++ [0x20]) ++ [0x7C] := by
  have hnone : bytesOf "" = [] := by decide
  have hbar : bytesOf " |" = [0x20] ++ [0x7C] := by decide
  simp [printCell, Escape.marks, hnone, hbar]

/-- **A printed cell has three characters more than its column is wide.** -/
theorem length_decode_printCell (h : Fits width cell) (hwidth : width ≤ greatestFill) :
    (Utf8.decode (printCell false width cell)).length = width + 3 := by
  have hle : (Utf8.decode (cut width (bytesOf cell.text))).length ≤ width :=
    Nat.le_trans (Utf8.length_decode_le _) (length_cut_le h)
  have hsingle : ∀ spaces : Nat, ∀ byte ∈ List.replicate spaces 0x20 ++ ([0x20] ++ [0x7C]),
      Utf8.isSingle byte = true := by
    intro spaces byte hbyte
    simp only [List.mem_append, List.mem_replicate, List.mem_singleton] at hbyte
    rcases hbyte with ⟨-, rfl⟩ | rfl | rfl <;> decide
  rw [printCell_eq, fill, if_pos hwidth, List.cons_append, Utf8.decode_cons (by decide),
    List.length_cons, List.append_assoc, List.append_assoc, Utf8.length_decode_append (hsingle _),
    List.length_append, List.length_replicate, List.length_append, List.length_singleton,
    List.length_singleton]
  omega

/-- **Lines have the same number of characters.** -/
theorem length_decode_line (h : List.Forall₂ Fits widths cells)
    (hwidths : ∀ width ∈ widths, width ≤ greatestFill) :
    (Utf8.decode (line widths cells)).length = lineWidth widths := by
  induction h with
  | nil => rfl
  | @cons width cell widths cells hfits _ ih =>
      rw [List.forall_mem_cons] at hwidths
      have hcell := length_decode_printCell hfits hwidths.1
      rw [printCell_eq] at hcell
      rw [line, List.zipWith_cons_cons, List.flatten_cons, printCell_eq,
        Utf8.decode_append_of_last (by decide), List.length_append, hcell, lineWidth]
      exact congrArg _ (ih hwidths.2)

/-! ### Lines of a table -/

/-- The characters of a table that is printed without escapes. -/
theorem decode_print (widths : List Nat) (rows : List (List Cell)) :
    Utf8.decode (rows.flatMap (printRow false widths)) =
      (rows.map fun cells => Utf8.decode (line widths cells)).flatMap (· ++ ['\n']) := by
  have hnewline : bytesOf "\n" = [10] := by decide
  induction rows with
  | nil => rfl
  | cons cells rows ih =>
      rw [List.flatMap_cons, printRow, hnewline, Utf8.decode_append_of_last (by decide), ih,
        Utf8.decode_append (by decide), Utf8.decode_cons (by decide)]
      rfl

theorem newline_mem_of_cut {bytes : List UInt8} (h : 10 ∈ cut width bytes) : 10 ∈ bytes := by
  unfold cut at h
  split at h
  · rcases List.mem_append.1 h with h | h
    · exact List.mem_of_mem_take h
    · exact absurd h (by decide)
  · exact h

theorem newline_mem_of_fill {bytes : List UInt8} (h : 10 ∈ fill width bytes) : 10 ∈ bytes := by
  unfold fill at h
  split at h
  · rcases List.mem_append.1 h with h | h
    · exact h
    · exact absurd (List.eq_of_mem_replicate h) (by decide)
  · rcases List.mem_append.1 h with h | h
    · exact absurd h (by decide)
    · exact h

/-- A newline in a printed cell is one of its text. -/
theorem newline_mem_of_printCell (h : 10 ∈ printCell false width cell) :
    '\n' ∈ cell.text.toList := by
  rw [printCell_eq] at h
  simp only [List.cons_append, List.mem_cons, List.mem_append, List.not_mem_nil, or_false] at h
  rcases h with h | (h | h) | h
  · exact absurd h (by decide)
  · exact newline_mem_of_bytesOf (newline_mem_of_cut (newline_mem_of_fill h))
  · exact absurd h (by decide)
  · exact absurd h (by decide)

/-- Where no cell has a newline, no line has one. -/
theorem newline_not_mem_line (h : ∀ cell ∈ cells, '\n' ∉ cell.text.toList) :
    '\n' ∉ Utf8.decode (line widths cells) := by
  have hbytes : 10 ∉ line widths cells := by
    rw [line]
    induction cells generalizing widths with
    | nil => simp
    | cons cell cells ih =>
        rw [List.forall_mem_cons] at h
        cases widths with
        | nil => simp
        | cons width widths =>
            rw [List.zipWith_cons_cons, List.flatten_cons, List.mem_append, not_or]
            exact ⟨mt newline_mem_of_printCell h.1, ih h.2⟩
  exact mt Utf8.newline_mem_of_decode hbytes

/-- The lines of a table that is printed without escapes. -/
theorem lengths_lines {columns : Nat} {table : Table} (h : Fitted columns table)
    (hescapes : table.escapes = false) (hwidths : ∀ width ∈ table.widths, width ≤ greatestFill)
    (hnewline : ∀ cells ∈ table.rows, ∀ cell ∈ cells, '\n' ∉ cell.text.toList) (file : String) :
    (Source.lines ⟨file, Utf8.decode table.print⟩).map Line.length =
      List.replicate table.height (lineWidth table.widths) := by
  have hlines : (Source.lines ⟨file, Utf8.decode table.print⟩).map Line.text =
      table.rows.map fun cells => Utf8.decode (line table.widths cells) := by
    rw [Source.lines, print, hescapes, decode_print]
    apply Source.texts_linesFrom
    intro text htext
    obtain ⟨cells, hcells, rfl⟩ := List.mem_map.1 htext
    exact newline_not_mem_line (hnewline cells hcells)
  calc (Source.lines ⟨file, Utf8.decode table.print⟩).map Line.length
      = ((Source.lines ⟨file, Utf8.decode table.print⟩).map Line.text).map List.length :=
        List.map_map.symm
    _ = table.rows.map fun cells => (Utf8.decode (line table.widths cells)).length := by
        rw [hlines, List.map_map]
        rfl
    _ = table.rows.map fun _ => lineWidth table.widths :=
        List.map_congr_left fun cells hcells => length_decode_line (h.rows cells hcells) hwidths
    _ = List.replicate table.height (lineWidth table.widths) := List.map_const' ..

/-- **Tables always print, and are aligned.**  Proper changes to an empty table can all be made, and
the table that they lead to has the rows that were added.  It prints: every cell that is too long for
its column can be cut.  Without escapes it prints one line for each row, and every line has as many
characters as all columns are wide and three more for each.  If there is no newline in a cell, these
are the lines of the printed text. -/
theorem prints_aligned {columns : Nat} {changes : List Change}
    (hproper : Change.areProper columns 0 changes = true) :
    ∃ table, (ofColumns columns).changeAll changes = .ok table ∧
      table.widths.length = columns ∧ table.texts = changes.filterMap Change.row? ∧
      table.print? = some table.print ∧
      (table.escapes = false → (∀ width ∈ table.widths, width ≤ greatestFill) →
        table.print = table.rows.flatMap (fun cells => line table.widths cells ++ bytesOf "\n") ∧
        (∀ cells ∈ table.rows,
          (Utf8.decode (line table.widths cells)).length = lineWidth table.widths) ∧
        ((∀ cells ∈ table.rows, ∀ cell ∈ cells, '\n' ∉ cell.text.toList) → ∀ file,
          (Source.lines ⟨file, Utf8.decode table.print⟩).map Line.length =
            List.replicate table.height (lineWidth table.widths))) := by
  obtain ⟨table, htable, hfitted, htexts⟩ := (fitted_ofColumns columns).changeAll hproper
  refine ⟨table, htable, hfitted.widths, htexts, hfitted.print?_eq, fun hescapes hwidths => ?_⟩
  refine ⟨by rw [print, hescapes]; rfl, ?_, lengths_lines hfitted hescapes hwidths⟩
  exact fun cells hcells => length_decode_line (hfitted.rows cells hcells) hwidths

/-- A column is limited, widened by a row and limited again, to a width that cuts through a
character of the second row. -/
def squeezing : List Change :=
  [.addRow ["äöü", "x"], .limitWidth 0 1, .addRow ["中文字", "y"], .limitWidth 0 4,
    .setEscape 1 0 Escape.plain.bold, .enableEscapes true, .enableEscapes false]

/-- Both lines have eleven characters: the first cell of the first row is filled up with a space, and
the one of the second row has two stray bytes. -/
theorem squeezing_prints_aligned :
    Change.areProper 2 0 squeezing = true ∧
      ∃ table, (ofColumns 2).changeAll squeezing = .ok table ∧ table.widths = [4, 1] ∧
        table.print? = some table.print ∧
        (Source.lines ⟨"squeezed", Utf8.decode table.print⟩).map Line.length = [11, 11] := by
  have hproper : Change.areProper 2 0 squeezing = true := by decide
  have hsqueezed : (ofColumns 2).changeAll squeezing = .ok ⟨[4, 1], [[⟨"äöü", Escape.plain⟩,
      ⟨"x", Escape.plain.bold⟩], [⟨"中文字", Escape.plain⟩, ⟨"y", Escape.plain⟩]], false⟩ := by
    decide
  obtain ⟨table, htable, -, -, hprint, haligned⟩ := prints_aligned hproper
  obtain rfl := Except.ok.inj (htable.symm.trans hsqueezed)
  exact ⟨hproper, _, hsqueezed, rfl, hprint, (haligned rfl (by decide)).2.2 (by decide) "squeezed"⟩

end Table

end RegisterColouring
