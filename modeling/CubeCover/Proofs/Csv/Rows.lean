import CubeCover.Cli.Command
import CubeCover.Proofs.Csv.Reader
import CubeCover.Proofs.Table.Cells
import CubeCover.Proofs.Cube.Text
import Mathlib

/-! The file of a consensus table tells the whole table: reading it gives the names of the columns and
the cells of all rows, and the cells of a row tell its number, its parents, its cube and its canceller.
-/
namespace CubeCover

theorem toInt?_toString (n : Int) : (toString n).toInt? = some n := Int.toInt?_repr n

theorem toString_ne_of_toInt? {text : String} (h : text.toInt? = none) (n : Int) :
    toString n ≠ text := by
  rintro rfl
  rw [toInt?_toString] at h
  cases h

/-- A list is read again item by item if each item is. -/
theorem mapM_map_of_inverse {α β : Type} (write : α → β) (read : β → Option α)
    (h : ∀ a, read (write a) = some a) (l : List α) : (l.map write).mapM read = some l := by
  induction l with
  | nil => rfl
  | cons a l ih =>
    rw [List.map_cons, List.mapM_cons, ih, h]
    rfl

namespace Row

/-- Numbers with commas between them. An empty text has none. -/
def numbersOf? (text : String) : Option (List Int) :=
  if text = "" then some []
  else (text.toList.splitOn ',').mapM fun part => (String.ofList part).toInt?

/-- The number of a canceller, or none for a dash. -/
def cancellerOf? (text : String) : Option (Option Int) :=
  if text = "-" then some none else text.toInt?.map some

/-- The row that some cells tell. -/
def ofCells? : List String → Option Row
  | [number, formedBy, cube, cancelledBy] =>
    match number.toInt?, numbersOf? formedBy, Cube.ofText cube, cancellerOf? cancelledBy with
    | some number, some formedBy, .ok cube, some cancelledBy =>
      some ⟨number, cube, formedBy, cancelledBy⟩
    | _, _, _, _ => none
  | _ => none

theorem numbersOf?_intercalate (numbers : List Int) :
    numbersOf? (",".intercalate (numbers.map toString)) = some numbers := by
  have hlist : (",".intercalate (numbers.map toString)).toList =
      [','].intercalate (numbers.map fun n => (toString n).toList) := by
    simp [String.toList_intercalate, Function.comp_def]
  cases numbers with
  | nil => rfl
  | cons n numbers =>
    have hne : ",".intercalate ((n :: numbers).map toString) ≠ "" := by
      have hempty : "".toInt? = none := by cbv
      have hfirst := toString_ne_of_toInt? hempty n
      rw [Ne, ← String.toList_inj, hlist]
      rw [Int.toString_eq_repr] at hfirst
      cases numbers <;> simp [hfirst]
    have hcomma : ∀ part ∈ (n :: numbers).map fun n => (toString n).toList, ',' ∉ part := by
      intro part hpart
      obtain ⟨m, _, rfl⟩ := List.mem_map.mp hpart
      exact notMem_toString (by decide) (by decide) m
    have hread (m : Int) : (String.ofList (toString m).toList).toInt? = some m := by
      rw [String.ofList_toList, toInt?_toString]
    rw [numbersOf?, if_neg hne, hlist, List.splitOn_intercalate ',' hcomma (by simp)]
    exact mapM_map_of_inverse _ (fun part => (String.ofList part).toInt?) hread _

theorem cancellerOf?_toString (number : Int) :
    cancellerOf? (toString number) = some (some number) := by
  have hmark : "-".toInt? = none := by cbv
  have hdash := toString_ne_of_toInt? hmark number
  rw [cancellerOf?, if_neg hdash, toInt?_toString, Option.map_some]

/-- A row is told by its cells. -/
theorem ofCells?_cells (row : Row) : ofCells? row.cells = some row := by
  obtain ⟨number, cube, formedBy, cancelledBy⟩ := row
  cases cancelledBy with
  | none =>
    simp only [cells, ofCells?, toInt?_toString, numbersOf?_intercalate, Cube.ofText_toText,
      cancellerOf?, if_true]
  | some canceller =>
    simp only [cells, ofCells?, toInt?_toString, numbersOf?_intercalate, Cube.ofText_toText,
      cancellerOf?_toString]

end Row

namespace Table

/-- The table that comma-separated values tell, below the names of its columns. -/
def ofCsv? (text : String) : Option Table :=
  match Csv.read text with
  | [] => none
  | names :: lines =>
    if names = Csv.names then (lines.mapM Row.ofCells?).map fun rows => ⟨rows.toArray⟩ else none

theorem read_toCsv (t : Table) : Csv.read t.toCsv = Csv.names :: t.cells := by
  apply Csv.read_ofLines
  intro hmem
  obtain ⟨row, _, hcells⟩ := List.mem_map.mp hmem
  exact absurd (congrArg List.length hcells) (by simp [Row.cells])

theorem ofCsv?_toCsv (t : Table) : ofCsv? t.toCsv = some t := by
  rw [ofCsv?, read_toCsv]
  simp only [if_true, cells, mapM_map_of_inverse _ _ Row.ofCells?_cells, Option.map_some,
    Array.toArray_toList]

end Table

theorem Cli.Output.fromUTF8?_content (o : Cli.Output) :
    String.fromUTF8? ⟨o.content.toArray⟩ = some o.table.toCsv := by
  have hbytes : (⟨o.content.toArray⟩ : ByteArray) = o.table.toCsv.toByteArray := by
    simp [Cli.Output.content]
  rw [hbytes, String.fromUTF8?, dif_pos o.table.toCsv.isValidUTF8]
  rfl

/-- The file of a table holds comma-separated values: the names of the columns and below them the cells
of the rows, and nothing else. Number, parents, cube and canceller of a row are told by its cells, so
that files of different tables differ. -/
theorem csv_file_tells_table :
    (∀ o : Cli.Output, ∃ text, String.fromUTF8? ⟨o.content.toArray⟩ = some text ∧
      Csv.read text = Csv.names :: o.table.cells ∧ Table.ofCsv? text = some o.table) ∧
    (∀ row : Row, Row.ofCells? row.cells = some row) ∧
    ∀ o o' : Cli.Output, o.content = o'.content ↔ o.table = o'.table := by
  refine ⟨?_, Row.ofCells?_cells, ?_⟩
  · intro o
    exact ⟨_, o.fromUTF8?_content, o.table.read_toCsv, o.table.ofCsv?_toCsv⟩
  · intro o o'
    constructor
    · intro hsame
      have htext : some o.table.toCsv = some o'.table.toCsv := by
        rw [← o.fromUTF8?_content, hsame, o'.fromUTF8?_content]
      have htable := o.table.ofCsv?_toCsv
      rw [Option.some.inj htext, o'.table.ofCsv?_toCsv] at htable
      exact (Option.some.inj htable).symm
    · intro hsame
      rw [Cli.Output.content, Cli.Output.content, hsame]

end CubeCover
