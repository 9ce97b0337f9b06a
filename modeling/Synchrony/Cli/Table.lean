import Synchrony.Text.Blank

/-!
# Tables

A table has left-aligned columns, two blanks apart, and a rule of dashes below its head. A column is as
wide as the longest of its cells, measured in bytes; no line ends in blanks.
-/

namespace Synchrony.Cli

/-- A head and the rows below it. -/
structure Table where
  head : List String
  rows : List (List String)

namespace Table

/-- The width of every column. -/
def widths (t : Table) : List Nat :=
  t.rows.foldl (fun ws row => ws.zipWith (fun w cell => max w cell.utf8ByteSize) row)
    (t.head.map String.utf8ByteSize)

/-- A text with as many blanks behind it as the width asks for. -/
def pad (width : Nat) (s : String) : List Char :=
  s.toList ++ List.replicate (width - s.toList.length) ' '

/-- The line of a row. -/
def line (widths : List Nat) (cells : List String) : String :=
  let padded := List.intercalate "  ".toList (widths.zipWith pad cells)
  String.ofList (padded.reverse.dropWhile Text.isBlank).reverse

/-- The lines of a table. -/
def lines (t : Table) : List String :=
  let ws := t.widths
  let rule := ws.map fun w => String.ofList (List.replicate w '-')
  (t.head :: rule :: t.rows).map (line ws)

end Table

end Synchrony.Cli
