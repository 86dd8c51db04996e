import CubeCover.Proofs.Cube.Text
import CubeCover.Table.Layout

/-! The characters of the cells of a row. They are digits, minus signs, commas and parentheses, so that no
cell holds a blank or the end of a line. -/
namespace CubeCover

/-- A number is written with digits and a minus sign. -/
theorem notMem_toString {c : Char} (hdigit : c.isDigit = false) (hminus : c ≠ '-') (n : Int) :
    c ∉ (toString n).toList := by
  have hdigits (m : Nat) : c ∉ m.repr.toList := by
    intro hmem
    rw [Nat.toList_repr] at hmem
    rw [Nat.isDigit_of_mem_toDigits (by decide) (by decide) hmem] at hdigit
    cases hdigit
  rw [Int.toString_eq_repr, Int.repr_eq_if]
  split
  · exact hdigits _
  · rw [String.toList_append, List.mem_append, not_or]
    exact ⟨by simpa using hminus, hdigits _⟩

theorem notMem_intercalate {c : Char} {separator : String} {parts : List String}
    (hseparator : c ∉ separator.toList) (hparts : ∀ part ∈ parts, c ∉ part.toList) :
    c ∉ (separator.intercalate parts).toList := by
  induction parts with
  | nil => simp
  | cons part parts ih =>
    have hpart := hparts part List.mem_cons_self
    have hrest := ih fun other hother => hparts other (List.mem_cons_of_mem _ hother)
    cases parts with
    | nil => simpa using hpart
    | cons other parts =>
      rw [String.intercalate_cons_cons, String.toList_append, String.toList_append, List.mem_append,
        List.mem_append, not_or, not_or]
      exact ⟨⟨hpart, hseparator⟩, hrest⟩

theorem Text.isDigit_of_isBlank {c : Char} (h : isBlank c = true) : c.isDigit = false := by
  obtain ⟨r, hr, hlow, hhigh⟩ := exists_range h
  have hranges : (blankRanges.all fun r =>
      decide (r.2 < '0'.toNat) || decide ('9'.toNat < r.1)) = true := by decide
  have hapart := List.all_eq_true.mp hranges r hr
  rw [Bool.or_eq_true, decide_eq_true_eq, decide_eq_true_eq] at hapart
  rw [Bool.eq_false_iff, Ne, Char.isDigit_iff_toNat]
  omega

/-- The characters between the digits of a cell. -/
def Row.marks : List Char := ['-', ',', '(', ')']

variable {c : Char}

theorem notMem_numbers (hdigit : c.isDigit = false) (hmark : c ∉ Row.marks) (ns : List Int) :
    c ∉ (",".intercalate (ns.map toString)).toList := by
  simp only [Row.marks, List.mem_cons, not_or] at hmark
  apply notMem_intercalate (by simpa using hmark.2.1)
  intro part hpart
  obtain ⟨n, _, rfl⟩ := List.mem_map.mp hpart
  exact notMem_toString hdigit hmark.1 n

theorem Cube.notMem_toText (hdigit : c.isDigit = false) (hmark : c ∉ Row.marks) (a : Cube) :
    c ∉ a.toText.toList := by
  simp only [Row.marks, List.mem_cons, not_or] at hmark
  obtain ⟨hminus, hcomma, hopen, hclose, _⟩ := hmark
  have hchar (d : Digit) : c ≠ d.toChar := by
    cases d with
    | zero => rintro rfl; exact absurd hdigit (by decide)
    | one => rintro rfl; exact absurd hdigit (by decide)
    | free => exact hminus
  have hdigits : c ∉ (",".intercalate (a.digits.map fun d => String.ofList [d.toChar])).toList := by
    apply notMem_intercalate (by simpa using hcomma)
    intro part hpart
    obtain ⟨d, _, rfl⟩ := List.mem_map.mp hpart
    simpa using hchar d
  rw [toText, String.toList_append, String.toList_append, List.mem_append, List.mem_append, not_or,
    not_or]
  exact ⟨⟨by simpa using hopen, hdigits⟩, by simpa using hclose⟩

namespace Row

theorem notMem_cells (hdigit : c.isDigit = false) (hmark : c ∉ marks) (row : Row) :
    ∀ cell ∈ row.cells, c ∉ cell.toList := by
  have hminus : c ≠ '-' := fun h => hmark (h ▸ List.mem_cons_self)
  intro cell hcell
  simp only [cells, List.mem_cons, List.not_mem_nil, or_false] at hcell
  rcases hcell with rfl | rfl | rfl | rfl
  · exact notMem_toString hdigit hminus row.number
  · exact notMem_numbers hdigit hmark row.formedBy
  · exact row.cube.notMem_toText hdigit hmark
  · cases row.cancelledBy with
    | none => simpa using hminus
    | some number => exact notMem_toString hdigit hminus number

/-- No blank stands in a cell: blanks are neither digits nor marks. -/
theorem isBlank_of_mem_cell {row : Row} {cell : String} (hcell : cell ∈ row.cells)
    (hc : c ∈ cell.toList) : Text.isBlank c = false := by
  rw [Bool.eq_false_iff]
  intro hblank
  have hdigit := Text.isDigit_of_isBlank hblank
  have hmark : c ∉ marks := by
    intro hmem
    have hmarks : marks.all (fun c => !Text.isBlank c) = true := by decide
    rw [List.all_eq_true] at hmarks
    simpa [hblank] using hmarks c hmem
  exact row.notMem_cells hdigit hmark cell hcell hc

end Row

end CubeCover
