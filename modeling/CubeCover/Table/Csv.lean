import CubeCover.Table.Layout

/-! Tables as comma-separated values: one line of names and one for each row. -/
namespace CubeCover

namespace Csv

/-- Characters that may stand only in a quoted field. -/
def needsQuotes (c : Char) : Bool := c == ',' || c == '"' || c == '\r' || c == '\n'

/-- A quotation mark in a field is written twice. -/
def double (c : Char) : List Char := if c = '"' then ['"', '"'] else [c]

/-- A field as it is, or between quotation marks if it needs them. -/
def field (text : String) : String :=
  if text.toList.any needsQuotes then
    String.ofList ('"' :: text.toList.flatMap double ++ ['"'])
  else text

def line (fields : List String) : String := ",".intercalate (fields.map field) ++ "\r\n"

/-- The names of the columns. -/
def names : List String := ["row", "formed_by", "cube", "cancelled_by"]

def ofLines (lines : List (List String)) : String := String.join ((names :: lines).map line)

end Csv

def Table.toCsv (t : Table) : String := Csv.ofLines t.cells

end CubeCover
