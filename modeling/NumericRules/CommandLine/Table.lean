import NumericRules.Text.Folding

/-! # Tables

Tables are drawn with box lines. A column is as wide as its widest cell and one
blank on each side; a cell may have several lines. Lines that no column has room
for are folded.
-/

namespace NumericRules.CommandLine

inductive Alignment where
  | left
  | right
deriving DecidableEq, Repr

/-- A table with one alignment per column. Every row has a cell for each
column. -/
structure Table where
  alignments : List Alignment
  header : Option (List String) := none
  rows : List (List String)

/-- The characters of a horizontal line: its ends, the line and its crossings. -/
structure Border where
  start : Char
  line : Char
  crossing : Char
  stop : Char

namespace Table

def topBorder : Border := ⟨'┌', '─', '┬', '┐'⟩

def headerBorder : Border := ⟨'╞', '═', '╪', '╡'⟩

def rowBorder : Border := ⟨'├', '╌', '┼', '┤'⟩

def bottomBorder : Border := ⟨'└', '─', '┴', '┘'⟩

/-- The greatest number of columns of a display that a column of a table takes. -/
def greatestWidth : Nat := 65535

def cellLines (cell : String) : List (List Char) := Text.split '\n' cell.toList

def cellWidth (cell : String) : Nat :=
  min greatestWidth (((cellLines cell).map Text.displayWidth).foldl max 0)

/-- The header, if there is one, and the rows. -/
def allRows (table : Table) : List (List String) := table.header.toList ++ table.rows

def widths (table : Table) : List Nat :=
  (List.range table.alignments.length).map fun column =>
    (table.allRows.map fun row => cellWidth (row[column]?.getD "")).foldl max 0

def drawBorder (border : Border) (widths : List Nat) : List Char :=
  let dashes := widths.map fun width =>
    List.replicate (min greatestWidth (width + 2)) border.line
  border.start :: ([border.crossing].intercalate dashes ++ [border.stop])

/-- A line of a cell between blanks. -/
def pad (alignment : Alignment) (width : Nat) (line : List Char) : List Char :=
  let blanks := List.replicate (width - Text.displayWidth line) ' '
  match alignment with
  | .left => ' ' :: (line ++ blanks ++ [' '])
  | .right => ' ' :: (blanks ++ line ++ [' '])

/-- The lines of a row of columns with the given alignments and widths. -/
def drawRow (columns : List (Alignment × Nat)) (row : List String) : List (List Char) :=
  let cells := (columns.zip row).map
    fun ((_, width), cell) => (cellLines cell).flatMap (Text.fold width)
  let height := (cells.map List.length).foldl max 1
  (List.range height).map fun index =>
    let padded := (columns.zip cells).map
      fun ((alignment, width), lines) => pad alignment width (lines[index]?.getD [])
    '│' :: (['┆'].intercalate padded ++ ['│'])

/-- The whole table, each line ended. -/
def draw (table : Table) : String :=
  let widths := table.widths
  let columns := table.alignments.zip widths
  let header := match table.header with
    | some header => drawRow columns header ++ [drawBorder headerBorder widths]
    | none => []
  let rows := [drawBorder rowBorder widths].intercalate (table.rows.map (drawRow columns))
  let lines := drawBorder topBorder widths ::
    (header ++ rows ++ [drawBorder bottomBorder widths])
  String.ofList (lines.flatMap (· ++ ['\n']))

end Table

end NumericRules.CommandLine
