import BlockCompiler.Text.Width

/-!
# Tables

Rows of cells in frames of box-drawing characters.  Each column is as wide as its
widest line, with a blank on either side; a cell with line feeds takes up several
lines.
-/

namespace BlockCompiler

/-- A heading and the rows below it. -/
structure Table where
  header : List String
  rows : List (List String)
deriving DecidableEq, Repr

namespace Table

/-- The pieces between line feeds. -/
def splitCell : List Char → List (List Char)
  | [] => [[]]
  | c :: rest =>
    if c = '\n' then [] :: splitCell rest
    else
      match splitCell rest with
      | [] => [[c]]
      | piece :: pieces => (c :: piece) :: pieces

/-- The lines of a cell. -/
def cellLines (cell : String) : List String :=
  (splitCell cell.toList).map String.ofList

/-- The width of a cell's widest line. -/
def cellWidth (cell : String) : Nat :=
  ((cellLines cell).map Text.width).foldl max 0

/-- The greater width in each column. -/
def widen : List Nat → List Nat → List Nat
  | w :: ws, v :: vs => max w v :: widen ws vs
  | [], vs => vs
  | ws, [] => ws

/-- The widths of the columns. -/
def widths (t : Table) : List Nat :=
  ((t.header :: t.rows).map (·.map cellWidth)).foldl widen []

/-- The same text several times. -/
def times (n : Nat) (s : String) : String :=
  String.join (List.replicate n s)

/-- A line across all columns. -/
def rule (left fill cross right : String) (widths : List Nat) : String :=
  left ++ cross.intercalate (widths.map fun w => times (w + 2) fill) ++ right

/-- A line of a cell, filled up with blanks. -/
def pad (w : Nat) (line : String) : String :=
  " " ++ line ++ times (w - Text.width line) " " ++ " "

/-- The lines of a row of cells. -/
def rowLines (widths : List Nat) (row : List String) : List String :=
  let cells := row.map cellLines
  let height := (cells.map List.length).foldl max 0
  (List.range height).map fun k =>
    "│" ++ "┆".intercalate ((widths.zip cells).map fun (w, lines) => pad w (lines.getD k "")) ++
      "│"

/-- Lines of lists with a further line between any two lists. -/
def separate (line : String) : List (List String) → List String
  | [] => []
  | [lines] => lines
  | lines :: rest => lines ++ line :: separate line rest

/-- The lines of a table. -/
def lines (t : Table) : List String :=
  let ws := t.widths
  rule "┌" "─" "┬" "┐" ws :: rowLines ws t.header ++ rule "╞" "═" "╪" "╡" ws ::
    separate (rule "├" "╌" "┼" "┤" ws) (t.rows.map (rowLines ws)) ++
    [rule "└" "─" "┴" "┘" ws]

/-- The text of a table, without a line feed at its end. -/
def render (t : Table) : String :=
  "\n".intercalate t.lines

end Table

end BlockCompiler
