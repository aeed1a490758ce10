import FlowText.Text.Blank

/-!
# Tables

Cells stand to the left of their columns, which are as wide as their widest cells and two blanks
apart. No line ends in blanks.
-/

namespace FlowText.Table

/-- How wide each column is. -/
def widths (rows : List (List String)) : List Nat :=
  match rows with
  | [] => []
  | first :: rest =>
    rest.foldl (fun found row => List.zipWith max found (row.map String.length))
      (first.map String.length)

/-- A cell, filled up to a width. -/
def pad (width : Nat) (cell : String) : String :=
  cell ++ String.ofList (List.replicate (width - cell.length) ' ')

/-- A text without the blanks at its end. -/
def dropEnd (text : String) : String :=
  String.ofList (dropBlanks text.toList.reverse).reverse

/-- The line of a row. -/
def line (columns : List Nat) (row : List String) : String :=
  dropEnd ("  ".intercalate (List.zipWith pad columns row)) ++ "\n"

/-- **Written form** of the rows of a table. -/
def text (rows : List (List String)) : String := String.join (rows.map (line (widths rows)))

end FlowText.Table
