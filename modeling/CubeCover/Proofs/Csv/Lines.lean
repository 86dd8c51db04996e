import CubeCover.Proofs.Table.Cells
import CubeCover.Table.Csv

/-! The lines of the file of a table, written out: commas between the four fields of a row, quotation marks
around the fields that hold commas themselves, and a carriage return and a line feed at the end. -/
namespace CubeCover

/-- A text between quotation marks, if there is a reason for them. -/
def Csv.quotedIf (reason : Prop) [Decidable reason] (text : String) : String :=
  if reason then "\"" ++ text ++ "\"" else text

theorem Csv.quotedIf_congr {p q : Prop} [Decidable p] [Decidable q] (h : p ↔ q) (text : String) :
    quotedIf p text = quotedIf q text := by
  simp only [quotedIf, h]

theorem Csv.quotedIf_of_not {p : Prop} [Decidable p] (h : ¬ p) (text : String) :
    quotedIf p text = text := if_neg h

/-- The line of a row in a file. Two parents and two digits have a comma between them. -/
def Row.fileLine (row : Row) : String :=
  toString row.number ++ "," ++
    Csv.quotedIf (2 ≤ row.formedBy.length) (",".intercalate (row.formedBy.map toString)) ++ "," ++
    Csv.quotedIf (2 ≤ row.cube.length) row.cube.toText ++ "," ++
    (row.cancelledBy.elim "-" toString) ++ "\r\n"

/-- The file of some rows: the names of the columns, and a line for each row. -/
def Row.fileText (rows : List Row) : String :=
  "row,formed_by,cube,cancelled_by\r\n" ++ String.join (rows.map Row.fileLine)

theorem mem_comma_intercalate_iff {parts : List String} (h : ∀ part ∈ parts, ',' ∉ part.toList) :
    ',' ∈ (",".intercalate parts).toList ↔ 2 ≤ parts.length := by
  match parts with
  | [] => simp
  | [part] => simpa using h part List.mem_cons_self
  | part :: other :: parts =>
    rw [String.intercalate_cons_cons, String.toList_append, String.toList_append]
    simp

theorem mem_comma_numbers_iff (ns : List Int) :
    ',' ∈ (",".intercalate (ns.map toString)).toList ↔ 2 ≤ ns.length := by
  rw [mem_comma_intercalate_iff, List.length_map]
  intro part hpart
  obtain ⟨n, _, rfl⟩ := List.mem_map.mp hpart
  exact notMem_toString (by decide) (by decide) n

theorem Cube.mem_comma_toText_iff (a : Cube) : ',' ∈ a.toText.toList ↔ 2 ≤ a.length := by
  have hparts : ∀ part ∈ a.digits.map fun d => String.ofList [d.toChar], ',' ∉ part.toList := by
    intro part hpart
    obtain ⟨d, _, rfl⟩ := List.mem_map.mp hpart
    cases d <;> decide
  have hdigits := mem_comma_intercalate_iff hparts
  rw [List.length_map] at hdigits
  rw [toText, String.toList_append, String.toList_append, List.mem_append, List.mem_append, length,
    ← hdigits]
  simp

theorem Csv.field_of_notMem {text : String} (hmark : '"' ∉ text.toList) (hreturn : '\r' ∉ text.toList)
    (hfeed : '\n' ∉ text.toList) : field text = quotedIf (',' ∈ text.toList) text := by
  have hneeds : text.toList.any needsQuotes = decide (',' ∈ text.toList) := by
    rw [Bool.eq_iff_iff, List.any_eq_true, decide_eq_true_iff]
    constructor
    · rintro ⟨c, hc, hquotes⟩
      simp only [needsQuotes, Bool.or_eq_true, beq_iff_eq] at hquotes
      rcases hquotes with ((rfl | rfl) | rfl) | rfl
      · exact hc
      · exact absurd hc hmark
      · exact absurd hc hreturn
      · exact absurd hc hfeed
    · exact fun hcomma => ⟨',', hcomma, rfl⟩
  have hdouble : text.toList.flatMap double = text.toList := by
    have hsingle : ∀ c ∈ text.toList, double c = [c] := by
      intro c hc
      have hne : c ≠ '"' := ne_of_mem_of_not_mem hc hmark
      rw [double, if_neg hne]
    rw [List.flatMap_def, List.map_congr_left hsingle, ← List.flatMap_def, List.flatMap_singleton']
  rw [field, quotedIf, hneeds, hdouble]
  simp only [decide_eq_true_eq]
  split
  · rw [← String.toList_inj]
    simp
  · rfl

namespace Row

/-- The only character of a cell that needs quotation marks is the comma. -/
theorem field_of_mem_cells {row : Row} {cell : String} (hcell : cell ∈ row.cells) :
    Csv.field cell = Csv.quotedIf (',' ∈ cell.toList) cell := by
  apply Csv.field_of_notMem
  · exact row.notMem_cells (by decide) (by decide) cell hcell
  · exact row.notMem_cells (by decide) (by decide) cell hcell
  · exact row.notMem_cells (by decide) (by decide) cell hcell

theorem cells_eq (row : Row) : row.cells =
    [toString row.number, ",".intercalate (row.formedBy.map toString), row.cube.toText,
      row.cancelledBy.elim "-" toString] := by
  rw [cells]
  cases row.cancelledBy <;> rfl

theorem line_cells (row : Row) : Csv.line row.cells = row.fileLine := by
  have hnumber (n : Int) : ',' ∉ (toString n).toList := notMem_toString (by decide) (by decide) n
  have hcanceller : ',' ∉ (row.cancelledBy.elim "-" toString).toList := by
    cases row.cancelledBy with
    | none => decide
    | some n => exact hnumber n
  have hfields : row.cells.map Csv.field =
      row.cells.map fun cell => Csv.quotedIf (',' ∈ cell.toList) cell :=
    List.map_congr_left fun _ => field_of_mem_cells
  rw [Csv.line, hfields, cells_eq]
  simp only [List.map_cons, List.map_nil, String.intercalate_cons_cons, String.intercalate_singleton,
    Csv.quotedIf_of_not (hnumber row.number), Csv.quotedIf_of_not hcanceller,
    Csv.quotedIf_congr (mem_comma_numbers_iff row.formedBy),
    Csv.quotedIf_congr row.cube.mem_comma_toText_iff, fileLine, String.append_assoc]

end Row

theorem Csv.line_names : line names = "row,formed_by,cube,cancelled_by\r\n" := by
  decide +kernel

theorem Table.toCsv_eq (t : Table) : t.toCsv = Row.fileText t.rows.toList := by
  have hlines : Csv.line ∘ Row.cells = Row.fileLine := funext Row.line_cells
  rw [toCsv, Csv.ofLines, cells, List.map_cons, String.join_cons, List.map_map, Csv.line_names, hlines]
  rfl

end CubeCover
