/-
**Tables.**

A table has a fixed number of columns and is printed with a bar after every cell.  A column is as wide
as its longest cell, unless it has been limited.  Widths count bytes: a cell that is too long is cut
to its first bytes and two dots, and the cut may go through a character.  Cells are then filled up
with spaces to the width of their column, counting characters.

Main definitions:

* `RegisterColouring.Table` with `addRow`, `get`, `setEscape` and `limitWidth`;
* `RegisterColouring.Table.print` — the bytes of a printed table.
-/

import RegisterColouring.Layout.Escape
import RegisterColouring.Text.Utf8

set_option autoImplicit false

namespace RegisterColouring

/-- The bytes of a text. -/
def bytesOf (text : String) : List UInt8 := text.toUTF8.data.toList

/-- A cell of a table: its text and how to show it. -/
structure Cell where
  text : String
  escape : Escape
  deriving DecidableEq, Repr

/-- A table: the width of every column, the rows, and whether escapes are enabled. -/
structure Table where
  widths : List Nat
  rows : List (List Cell)
  escapes : Bool
  deriving DecidableEq, Repr

namespace Table

/-- How a table can be misused: a row with another number of cells than the table has columns, or a
place outside the table. -/
inductive Fault where
  | wrongColumns
  | outside
  deriving DecidableEq, Repr

/-- The text of the fault of a row that does not fit. -/
def wrongColumnsMessage : String := "incorrect number of columns"

/-- The empty table with a number of columns. -/
def ofColumns (columns : Nat) : Table := ⟨List.replicate columns 0, [], false⟩

/-- How many rows there are. -/
def height (table : Table) : Nat := table.rows.length

/-- One more row. -/
def addRow (table : Table) (texts : List String) : Except Fault Table :=
  if texts.length = table.widths.length then
    .ok { table with
      widths := table.widths.zipWith (fun width text => max width (bytesOf text).length) texts
      rows := table.rows ++ [texts.map fun text => ⟨text, Escape.plain⟩] }
  else .error .wrongColumns

/-- The cell in a column and a row. -/
def cell (table : Table) (column row : Nat) : Except Fault Cell :=
  match table.rows[row]?.bind (·[column]?) with
  | some cell => .ok cell
  | none => .error .outside

/-- The text in a column and a row. -/
def get (table : Table) (column row : Nat) : Except Fault String :=
  (table.cell column row).map Cell.text

/-- Another way to show the cell in a column and a row. -/
def setEscape (table : Table) (column row : Nat) (escape : Escape) : Except Fault Table :=
  match table.cell column row with
  | .error fault => .error fault
  | .ok _ =>
    .ok { table with
      rows := table.rows.modify row fun cells => cells.modify column ({ · with escape }) }

/-- Escapes enabled or disabled. -/
def enableEscapes (table : Table) (enabled : Bool) : Table := { table with escapes := enabled }

/-- The smallest limit on a column: one byte and the two dots. -/
def leastWidth : Nat := 3

/-- A column made no wider than a limit. -/
def limitWidth (table : Table) (column limit : Nat) : Except Fault Table :=
  if column < table.widths.length then
    .ok { table with widths := table.widths.modify column (min · (max limit leastWidth)) }
  else .error .outside

/-! ### Printing -/

/-- The bytes of a cell cut to a width: the first ones and two dots if there are too many. -/
def cut (width : Nat) (bytes : List UInt8) : List UInt8 :=
  if width < bytes.length then bytes.take (width - 2) ++ bytesOf ".." else bytes

/-- The widest column that cells are filled up for. -/
def greatestFill : Nat := 1000000

/-- Bytes filled up with spaces to a width that counts characters.  Beyond the greatest width, a note
takes the place of the filling. -/
def fill (width : Nat) (bytes : List UInt8) : List UInt8 :=
  if width ≤ greatestFill then
    bytes ++ List.replicate (width - (Utf8.decode bytes).length) 0x20
  else bytesOf "%!(BADWIDTH)" ++ bytes

/-- A cell as it is printed, with the bar after it. -/
def printCell (escapes : Bool) (width : Nat) (cell : Cell) : List UInt8 :=
  bytesOf (cell.escape.marks escapes).1 ++ 0x20 :: fill width (cut width (bytesOf cell.text)) ++
    bytesOf (cell.escape.marks escapes).2 ++ bytesOf " |"

/-- A row as it is printed. -/
def printRow (escapes : Bool) (widths : List Nat) (cells : List Cell) : List UInt8 :=
  (widths.zipWith (printCell escapes) cells).flatten ++ bytesOf "\n"

/-- **The bytes of a printed table.** -/
def print (table : Table) : List UInt8 :=
  table.rows.flatMap (printRow table.escapes table.widths)

end Table

end RegisterColouring
