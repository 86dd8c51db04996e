import CubeCover.Proofs.Cube.Layout
import CubeCover.Proofs.Table.Cells
import Mathlib.Algebra.BigOperators.Group.List.Lemmas
import Mathlib.Algebra.GroupWithZero.Nat
import Mathlib.Data.List.GetD

/-! A table as aligned text. All lines share their columns, each as wide as its longest cell, so the cells of
every line are found again where the columns start. -/
namespace CubeCover

namespace Text

/-- The space is the only blank of a text. -/
def OnlySpaces (cs : List Char) : Prop := ∀ c ∈ cs, isBlank c = true → c = ' '

theorem isBlank_of_mem_replicate {n : Nat} : ∀ c ∈ List.replicate n ' ', isBlank c = true := by
  intro c hc
  rw [List.eq_of_mem_replicate hc]
  decide

theorem trimBlanks_of_forall {cs : List Char} (h : ∀ c ∈ cs, isBlank c = false) : trimBlanks cs = cs := by
  cases cs with
  | nil => rfl
  | cons c cs =>
    have hlast := List.getLast?_eq_some_getLast (List.cons_ne_nil c cs)
    exact trimBlanks_of_ends (h c List.mem_cons_self) hlast (h _ (List.getLast_mem _))

theorem isBlank_getLast?_dropBlanksEnd {cs : List Char} {c : Char}
    (h : (dropBlanksEnd cs).getLast? = some c) : isBlank c = false := by
  rw [dropBlanksEnd, List.getLast?_reverse] at h
  have hnot := List.head?_dropWhile_not isBlank cs.reverse
  rwa [h] at hnot

namespace OnlySpaces

variable {cs : List Char}

theorem of_forall (h : ∀ c ∈ cs, isBlank c = false) : OnlySpaces cs := by
  intro c hc hblank
  rw [h c hc] at hblank
  cases hblank

theorem dropBlanksEnd (h : OnlySpaces cs) : OnlySpaces (dropBlanksEnd cs) := by
  intro c hc
  rw [Text.dropBlanksEnd, List.mem_reverse] at hc
  exact h c (List.mem_reverse.mp (List.dropWhile_subset _ hc))

theorem notMem_lineEnd (h : OnlySpaces cs) : '\n' ∉ cs := by
  intro hmem
  exact absurd (h '\n' hmem (by decide)) (by decide)

/-- Spaces make up for what is dropped. -/
theorem dropBlanksEnd_append (h : OnlySpaces cs) :
    Text.dropBlanksEnd cs ++ List.replicate (cs.length - (Text.dropBlanksEnd cs).length) ' ' = cs := by
  have hback := dropBlanksEnd_append_takeWhile cs
  have hlength := congrArg List.length hback
  rw [List.length_append] at hlength
  have hdropped : (cs.reverse.takeWhile isBlank).reverse =
      List.replicate (cs.length - (Text.dropBlanksEnd cs).length) ' ' := by
    rw [List.eq_replicate_iff]
    refine ⟨by omega, ?_⟩
    intro c hc
    have htake := List.mem_reverse.mp hc
    exact h c (List.mem_reverse.mp (List.takeWhile_subset _ htake)) (List.mem_takeWhile_imp htake)
  rw [← hdropped, hback]

end OnlySpaces

end Text

namespace Layout

/-- The length of the longest cell of a column, the title among them. -/
def columnWidth (titles : List String) (lines : List (List String)) (column : Nat) : Nat :=
  (((titles :: lines).map fun cells => (cells.getD column "").length).max?).getD 0

/-- Where a column starts: after the columns before it, each with two spaces behind it. -/
def columnStart (titles : List String) (lines : List (List String)) (column : Nat) : Nat :=
  ((List.range column).map fun i => columnWidth titles lines i + 2).sum

/-- A line with spaces up to the end of the last column. -/
def spread (titles : List String) (lines : List (List String)) (text : List Char) : List Char :=
  text ++ List.replicate (columnStart titles lines titles.length - text.length) ' '

/-- What a line has from the start of a column to the start of the next one. -/
def slice (titles : List String) (lines : List (List String)) (text : List Char) (column : Nat) :
    List Char :=
  text.extract (columnStart titles lines column) (columnStart titles lines (column + 1))

/-- A line cut where the columns start, without the blanks around the cells. -/
def cut (titles : List String) (lines : List (List String)) (text : List Char) : List String :=
  (List.range titles.length).map fun column =>
    String.ofList (Text.trimBlanks (slice titles lines text column))

/-- A cell and the spaces between it and the next column. -/
def filled (cell : String) (width : Nat) : List Char :=
  cell.toList ++ List.replicate (width + 2 - cell.length) ' '

/-- A line shows some cells if each of them starts where its column does, and is whole and followed by nothing
but spaces up to the next column. -/
structure Shows (titles : List String) (lines : List (List String)) (text : List Char)
    (cells : List String) : Prop where
  length_eq : cells.length = titles.length
  length_le : ∀ column cell, cells[column]? = some cell →
    cell.length ≤ columnWidth titles lines column
  slice_eq : ∀ column cell, cells[column]? = some cell →
    slice titles lines (spread titles lines text) column = filled cell (columnWidth titles lines column)

/-- Cells that the columns have room for, with no blanks other than spaces. -/
structure Fits (titles : List String) (lines : List (List String)) (cells : List String) : Prop where
  length_eq : cells.length = titles.length
  length_le : ∀ column cell, cells[column]? = some cell →
    cell.length ≤ columnWidth titles lines column
  onlySpaces : ∀ cell ∈ cells, Text.OnlySpaces cell.toList

/-- Lines with a cell for each title, and no blanks other than spaces. -/
structure IsRegular (titles : List String) (lines : List (List String)) : Prop where
  length_eq : ∀ cells ∈ lines, cells.length = titles.length
  onlySpaces : ∀ cells ∈ titles :: lines, ∀ cell ∈ cells, Text.OnlySpaces cell.toList

/-! The widths of the columns. -/

theorem foldl_widen {lines : List (List String)} {widths : List Nat}
    (h : ∀ cells ∈ lines, cells.length = widths.length) :
    lines.foldl widen widths = (List.range widths.length).map fun column =>
      (lines.map fun cells => (cells.getD column "").length).foldl max (widths.getD column 0) := by
  induction lines generalizing widths with
  | nil =>
    apply List.ext_getElem
    · simp
    · intro column hleft _
      have hwidths : column < widths.length := hleft
      simp [List.getD_eq_getElem?_getD, List.getElem?_eq_getElem hwidths]
  | cons cells lines ih =>
    have hcells := h cells List.mem_cons_self
    have hlength : (widen widths cells).length = widths.length := by
      rw [widen, List.length_zipWith, hcells, min_self]
    have hlines : ∀ other ∈ lines, other.length = (widen widths cells).length := by
      intro other hother
      rw [hlength, h other (List.mem_cons_of_mem _ hother)]
    rw [List.foldl_cons, ih hlines, hlength]
    apply List.map_congr_left
    intro column hcolumn
    have hwidths : column < widths.length := List.mem_range.mp hcolumn
    have hcell : column < cells.length := hcells ▸ hwidths
    have hwiden : (widen widths cells).getD column 0 =
        max (widths.getD column 0) (cells.getD column "").length := by
      simp [widen, List.getD_eq_getElem?_getD, List.getElem?_zipWith, List.getElem?_eq_getElem hwidths,
        List.getElem?_eq_getElem hcell]
    rw [List.map_cons, List.foldl_cons, hwiden]

variable {titles : List String} {lines : List (List String)}

theorem length_le_columnWidth {cells : List String} (hcells : cells ∈ titles :: lines) {column : Nat}
    {cell : String} (hcell : cells[column]? = some cell) :
    cell.length ≤ columnWidth titles lines column := by
  have hlength : (cells.getD column "").length = cell.length := by
    rw [List.getD_eq_getElem?_getD, hcell, Option.getD_some]
  rw [← hlength, columnWidth]
  exact List.le_max?_getD_of_mem (List.mem_map_of_mem hcells)

/-! A line before the blanks at its end are dropped is its cells, each filled up to the next column. -/

theorem length_filled {cell : String} {width : Nat} (h : cell.length ≤ width) :
    (filled cell width).length = width + 2 := by
  rw [filled, List.length_append, List.length_replicate, String.length_toList]
  omega

theorem toList_pad_append {cell : String} {width : Nat} (h : cell.length ≤ width) :
    (pad cell width).toList ++ List.replicate 2 ' ' = filled cell width := by
  have hcount : width - cell.length + 2 = width + 2 - cell.length := by omega
  rw [pad, String.toList_append, String.toList_ofList, List.append_assoc,
    List.replicate_append_replicate, hcount, filled]

section

variable {cells : List String} {widths : List Nat}
  (h : List.Forall₂ (fun cell width => cell.length ≤ width) cells widths)

include h

theorem intercalate_pad_append (hne : cells ≠ []) :
    ("  ".intercalate (List.zipWith pad cells widths)).toList ++ List.replicate 2 ' ' =
      (List.zipWith filled cells widths).flatten := by
  induction h with
  | nil => exact absurd rfl hne
  | cons hcell hrest ih =>
    rw [List.zipWith_cons_cons, List.zipWith_cons_cons, List.flatten_cons, ← toList_pad_append hcell]
    cases hrest with
    | nil => simp
    | cons hother hrest =>
      rw [← ih (List.cons_ne_nil _ _), List.zipWith_cons_cons, String.intercalate_cons_cons]
      simp

theorem toList_line :
    (line widths cells).toList = Text.dropBlanksEnd (List.zipWith filled cells widths).flatten := by
  rw [line, String.toList_ofList]
  by_cases hne : cells = []
  · subst hne
    rfl
  · rw [← intercalate_pad_append h hne, Text.dropBlanksEnd_append _ Text.isBlank_of_mem_replicate]

theorem map_length_filled :
    (List.zipWith filled cells widths).map List.length = widths.map (· + 2) := by
  induction h with
  | nil => rfl
  | cons hcell _ ih => rw [List.zipWith_cons_cons, List.map_cons, List.map_cons, ih, length_filled hcell]

theorem onlySpaces_flatten (hspaces : ∀ cell ∈ cells, Text.OnlySpaces cell.toList) :
    Text.OnlySpaces (List.zipWith filled cells widths).flatten := by
  induction h with
  | nil => exact fun c hc => absurd hc List.not_mem_nil
  | cons _ _ ih =>
    intro c hc hblank
    rw [List.zipWith_cons_cons, List.flatten_cons, List.mem_append, filled, List.mem_append] at hc
    rcases hc with (hcell | hfill) | hrest
    · exact hspaces _ List.mem_cons_self c hcell hblank
    · exact List.eq_of_mem_replicate hfill
    · exact ih (fun cell hcell => hspaces cell (List.mem_cons_of_mem _ hcell)) c hrest hblank

end

theorem isBlank_getLast?_line (widths : List Nat) (lines : List (List String)) :
    ∀ text ∈ lines.map fun cells => (line widths cells).toList,
      ∀ c, text.getLast? = some c → Text.isBlank c = false := by
  intro text htext c hc
  obtain ⟨cells, _, rfl⟩ := List.mem_map.mp htext
  rw [line, String.toList_ofList] at hc
  exact Text.isBlank_getLast?_dropBlanksEnd hc

theorem exists_slice_spread (titles : List String) (lines : List (List String)) (text : List Char)
    (column : Nat) :
    ∃ n, slice titles lines (spread titles lines text) column =
      slice titles lines text column ++ List.replicate n ' ' := by
  simp only [slice, spread, List.extract_eq_take_drop, List.drop_append, List.take_append,
    List.drop_replicate, List.take_replicate]
  exact ⟨_, rfl⟩

/-- Blank-free cells are read again where the columns start. -/
theorem Shows.cut_eq {text : List Char} {cells : List String} (h : Shows titles lines text cells)
    (hbare : ∀ cell ∈ cells, ∀ c ∈ cell.toList, Text.isBlank c = false) :
    cut titles lines text = cells := by
  apply List.ext_getElem
  · simp [cut, h.length_eq]
  · intro column _ hcells
    -- a column of the spread line is the cell up to spaces, and so is what the line itself has of it
    have hcell : Text.IsPadded cells[column].toList
        (slice titles lines (spread titles lines text) column) := by
      rw [h.slice_eq column _ (List.getElem?_eq_getElem hcells)]
      exact ⟨[], _, by simp, Text.isBlank_of_mem_replicate, rfl⟩
    have htext : Text.IsPadded (slice titles lines text column)
        (slice titles lines (spread titles lines text) column) := by
      obtain ⟨n, hn⟩ := exists_slice_spread titles lines text column
      exact ⟨[], _, by simp, Text.isBlank_of_mem_replicate, hn⟩
    simp only [cut, List.getElem_map, List.getElem_range]
    rw [← htext.trimBlanks_eq, hcell.trimBlanks_eq,
      Text.trimBlanks_of_forall (hbare _ (List.getElem_mem hcells)), String.ofList_toList]

namespace IsRegular

variable (h : IsRegular titles lines)

include h

theorem length_cells {cells : List String} (hcells : cells ∈ titles :: lines) :
    cells.length = titles.length := by
  rcases List.mem_cons.mp hcells with rfl | hlines
  · rfl
  · exact h.length_eq cells hlines

theorem widths_eq :
    widths titles lines = (List.range titles.length).map (columnWidth titles lines) := by
  rw [widths, foldl_widen (by simpa using h.length_eq), List.length_map]
  apply List.map_congr_left
  intro column _
  have htitle : (titles.map String.length).getD column 0 = (titles.getD column "").length :=
    List.getD_map titles "" String.length
  rw [columnWidth, List.map_cons, List.max?_cons', Option.getD_some, htitle]

theorem fits_cells {cells : List String} (hcells : cells ∈ titles :: lines) :
    Fits titles lines cells :=
  ⟨h.length_cells hcells, fun _ _ hcell => length_le_columnWidth hcells hcell,
    h.onlySpaces cells hcells⟩

theorem fits_dashes : Fits titles lines (dashes (widths titles lines)) := by
  rw [h.widths_eq]
  refine ⟨by simp [dashes], ?_, ?_⟩
  · intro column cell hcell
    rw [dashes, List.map_map, List.getElem?_map, Option.map_eq_some_iff] at hcell
    obtain ⟨i, hi, rfl⟩ := hcell
    obtain ⟨hlt, rfl⟩ := List.getElem?_eq_some_iff.mp hi
    simp
  · intro cell hcell
    obtain ⟨width, _, rfl⟩ := List.mem_map.mp hcell
    apply Text.OnlySpaces.of_forall
    intro c hc
    rw [String.toList_ofList] at hc
    rw [List.eq_of_mem_replicate hc]
    decide

theorem fits_of_mem {cells : List String}
    (hcells : cells ∈ titles :: dashes (widths titles lines) :: lines) : Fits titles lines cells := by
  rcases List.mem_cons.mp hcells with rfl | hcells
  · exact h.fits_cells List.mem_cons_self
  · rcases List.mem_cons.mp hcells with rfl | hlines
    · exact h.fits_dashes
    · exact h.fits_cells (List.mem_cons_of_mem _ hlines)

section

variable {cells : List String} (hcells : Fits titles lines cells)

include hcells

theorem forall₂_length_le :
    List.Forall₂ (fun cell width => cell.length ≤ width) cells (widths titles lines) := by
  rw [h.widths_eq, List.forall₂_iff_get]
  refine ⟨by simpa using hcells.length_eq, ?_⟩
  intro column hcolumn _
  simpa using hcells.length_le column _ (List.getElem?_eq_getElem hcolumn)

/-- The cells in front of a column end where it starts. -/
theorem sum_take_lengths {column : Nat} (hcolumn : column ≤ titles.length) :
    (((List.zipWith filled cells (widths titles lines)).map List.length).take column).sum =
      columnStart titles lines column := by
  rw [map_length_filled (h.forall₂_length_le hcells), h.widths_eq, List.map_map, ← List.map_take,
    List.take_range, min_eq_left hcolumn]
  rfl

theorem slice_flatten {column : Nat} {cell : String} (hcell : cells[column]? = some cell) :
    slice titles lines (List.zipWith filled cells (widths titles lines)).flatten column =
      filled cell (columnWidth titles lines column) := by
  obtain ⟨hin, rfl⟩ := List.getElem?_eq_some_iff.mp hcell
  have hcolumn : column < titles.length := hcells.length_eq ▸ hin
  have hzip : column < (List.zipWith filled cells (widths titles lines)).length := by
    simp [h.widths_eq, hcells.length_eq, hcolumn]
  rw [slice, List.extract_eq_take_drop, ← List.drop_take, ← h.sum_take_lengths hcells hcolumn.le,
    ← h.sum_take_lengths hcells hcolumn, List.drop_take_succ_flatten_eq_getElem _ _ hzip]
  simp [h.widths_eq]

theorem spread_line :
    spread titles lines (line (widths titles lines) cells).toList =
      (List.zipWith filled cells (widths titles lines)).flatten := by
  have hforall := h.forall₂_length_le hcells
  have htotal : columnStart titles lines titles.length =
      (List.zipWith filled cells (widths titles lines)).flatten.length := by
    rw [← h.sum_take_lengths hcells le_rfl, List.length_flatten, List.take_of_length_le]
    rw [List.length_map, List.length_zipWith, hcells.length_eq]
    exact Nat.min_le_left _ _
  rw [spread, toList_line hforall, htotal]
  exact (onlySpaces_flatten hforall hcells.onlySpaces).dropBlanksEnd_append

theorem shows_line : Shows titles lines (line (widths titles lines) cells).toList cells := by
  refine ⟨hcells.length_eq, hcells.length_le, ?_⟩
  intro column cell hcell
  rw [h.spread_line hcells, h.slice_flatten hcells hcell]

theorem onlySpaces_line : Text.OnlySpaces (line (widths titles lines) cells).toList := by
  have hforall := h.forall₂_length_le hcells
  rw [toList_line hforall]
  exact (onlySpaces_flatten hforall hcells.onlySpaces).dropBlanksEnd

end

theorem splitOn_format :
    (format titles lines).toList.splitOn '\n' =
      (titles :: dashes (widths titles lines) :: lines).map fun cells =>
        (line (widths titles lines) cells).toList := by
  have hlist : (format titles lines).toList =
      ['\n'].intercalate ((titles :: dashes (widths titles lines) :: lines).map fun cells =>
        (line (widths titles lines) cells).toList) := by
    simp [format, String.toList_intercalate, Function.comp_def]
  have hend : ∀ text ∈ (titles :: dashes (widths titles lines) :: lines).map fun cells =>
      (line (widths titles lines) cells).toList, '\n' ∉ text := by
    intro text htext
    obtain ⟨cells, hcells, rfl⟩ := List.mem_map.mp htext
    exact (h.onlySpaces_line (h.fits_of_mem hcells)).notMem_lineEnd
  rw [hlist, List.splitOn_intercalate '\n' hend (by simp)]

end IsRegular

end Layout

namespace Table

variable (t : Table)

theorem isRegular_cells : Layout.IsRegular Layout.titles t.cells := by
  refine ⟨?_, ?_⟩
  · intro cells hcells
    obtain ⟨row, _, rfl⟩ := List.mem_map.mp hcells
    rfl
  · intro cells hcells cell hcell
    rcases List.mem_cons.mp hcells with rfl | hrows
    · have htitles : (Layout.titles.all fun title =>
          title.toList.all fun c => !Text.isBlank c || c == ' ') = true := by decide
      intro c hc hblank
      have hspace := List.all_eq_true.mp (List.all_eq_true.mp htitles cell hcell) c hc
      simpa [hblank] using hspace
    · obtain ⟨row, _, rfl⟩ := List.mem_map.mp hrows
      exact Text.OnlySpaces.of_forall fun c hc => row.isBlank_of_mem_cell hcell hc

end Table

/-- The text of a table has a line of titles, a line of dashes and a line for each row. All lines show their cells in
the same columns and end without a blank, and the lines of the rows are cut into the cells of the rows again. -/
theorem text_table_is_aligned_and_lossless (t : Table) :
    ∃ head dashes body,
      (t.format Layout.titles).toList.splitOn '\n' = head :: dashes :: body ∧
      body.length = t.size ∧
      Layout.Shows Layout.titles t.cells head Layout.titles ∧
      Layout.Shows Layout.titles t.cells dashes
        (Layout.dashes ((List.range 4).map (Layout.columnWidth Layout.titles t.cells))) ∧
      List.Forall₂ (Layout.Shows Layout.titles t.cells) body t.cells ∧
      (∀ text ∈ head :: dashes :: body, ∀ c, text.getLast? = some c → Text.isBlank c = false) ∧
      body.map (Layout.cut Layout.titles t.cells) = t.cells := by
  have hregular := t.isRegular_cells
  have hwidths : Layout.widths Layout.titles t.cells =
      (List.range 4).map (Layout.columnWidth Layout.titles t.cells) := hregular.widths_eq
  have hshows : ∀ cells ∈ t.cells, Layout.Shows Layout.titles t.cells
      (Layout.line (Layout.widths Layout.titles t.cells) cells).toList cells := by
    intro cells hcells
    exact hregular.shows_line (hregular.fits_cells (List.mem_cons_of_mem _ hcells))
  have hcut : ∀ cells ∈ t.cells, Layout.cut Layout.titles t.cells
      (Layout.line (Layout.widths Layout.titles t.cells) cells).toList = cells := by
    intro cells hcells
    obtain ⟨row, _, rfl⟩ := List.mem_map.mp hcells
    exact (hshows _ hcells).cut_eq fun cell hcell c hc => row.isBlank_of_mem_cell hcell hc
  refine ⟨_, _, _, hregular.splitOn_format, ?_, ?_, ?_, ?_, ?_, ?_⟩
  · rw [List.length_map, Table.cells, List.length_map, Array.length_toList, Table.size]
  · exact hregular.shows_line (hregular.fits_cells List.mem_cons_self)
  · rw [← hwidths]
    exact hregular.shows_line hregular.fits_dashes
  · rw [List.forall₂_map_left_iff, List.forall₂_same]
    exact hshows
  · exact Layout.isBlank_getLast?_line _ (Layout.titles :: Layout.dashes _ :: t.cells)
  · rw [List.map_map]
    exact (List.map_congr_left hcut).trans (List.map_id' _)

example : Table.format ⟨#[⟨1, ⟨[.one, .one]⟩, [], some 12⟩, ⟨12, ⟨[.free, .one]⟩, [2, 1], none⟩]⟩ Layout.titles =
    "No.  Formed by  Cube   Cancelled by\n" ++ "---  ---------  -----  ------------\n" ++
    "1               (1,1)  12\n" ++ "12   2,1        (-,1)  -" := by
  cbv

end CubeCover
