import CubeCover.Table.Basic

/-! Tables as aligned text: a line of titles, a line of dashes, and a line for each row. -/
namespace CubeCover

/-- The cells of a row: its number, its parents, its cube and its canceller. -/
def Row.cells (row : Row) : List String :=
  [toString row.number, ",".intercalate (row.formedBy.map toString), row.cube.toText,
    match row.cancelledBy with
    | none => "-"
    | some number => toString number]

def Table.cells (t : Table) : List (List String) := t.rows.toList.map Row.cells

namespace Layout

/-- The titles of the columns. -/
def titles : List String := ["No.", "Formed by", "Cube", "Cancelled by"]

/-- Widens columns to hold a line; columns that the line lacks are dropped. -/
def widen (widths : List Nat) (line : List String) : List Nat :=
  List.zipWith (fun width cell => max width cell.length) widths line

def widths (titles : List String) (lines : List (List String)) : List Nat :=
  lines.foldl widen (titles.map String.length)

/-- A cell with spaces up to a width. -/
def pad (cell : String) (width : Nat) : String :=
  cell ++ String.ofList (List.replicate (width - cell.length) ' ')

/-- A line of cells in columns of some widths, two spaces apart, without blanks at its end. -/
def line (widths : List Nat) (cells : List String) : String :=
  String.ofList (Text.dropBlanksEnd ("  ".intercalate (List.zipWith pad cells widths)).toList)

def dashes (widths : List Nat) : List String :=
  widths.map fun width => String.ofList (List.replicate width '-')

/-- Lines of cells below some titles. -/
def format (titles : List String) (lines : List (List String)) : String :=
  let widths := widths titles lines
  "\n".intercalate ((titles :: dashes widths :: lines).map (line widths))

end Layout

def Table.format (t : Table) (titles : List String) : String := Layout.format titles t.cells

end CubeCover
