import CubeCover.Cube.Covering
import CubeCover.Table.Step

/-! Why the consensus procedure ends. A row that is appended active covers a cube that no active row
covered before, and every cube that was covered stays covered. All other steps leave the active rows
as they are. -/
namespace CubeCover

theorem countP_lt_countP {α : Type} (p q : α → Bool) (xs : List α) (x : α) (hx : x ∈ xs)
    (hpq : ∀ y, p y = true → q y = true) (hp : p x = false) (hq : q x = true) :
    xs.countP p < xs.countP q := by
  induction xs with
  | nil => exact absurd hx (by simp)
  | cons y ys ih =>
    have hle : ys.countP p ≤ ys.countP q := List.countP_mono_left fun z _ => hpq z
    rw [List.countP_cons, List.countP_cons]
    rcases List.mem_cons.mp hx with rfl | hmem
    · simp [hp, hq]
      omega
    · have hlt := ih hmem
      cases hy : p y with
      | false => simp; omega
      | true => simp [hpq y hy]; omega

namespace Row

/-- Some active row of a list covers the cube. -/
def anyCovers (rows : List Row) (cube : Cube) : Bool :=
  rows.any fun row => row.isActive && row.cube.covers cube

/-- The greatest length of a cube in a list of rows. -/
def maxLength (rows : List Row) : Nat := (rows.map (·.cube.length)).foldr max 0

/-- How many cubes, up to the greatest length in the rows, no active row covers. -/
def uncovered (rows : List Row) : Nat :=
  (Cube.upTo (maxLength rows)).countP fun cube => !anyCovers rows cube

theorem length_le_maxLength (rows : List Row) (row : Row) (h : row ∈ rows) :
    row.cube.length ≤ maxLength rows := by
  induction rows with
  | nil => exact absurd h (by simp)
  | cons first rest ih =>
    simp only [maxLength, List.map_cons, List.foldr_cons]
    rcases List.mem_cons.mp h with rfl | hmem
    · exact Nat.le_max_left _ _
    · exact Nat.le_trans (ih hmem) (Nat.le_max_right _ _)

theorem maxLength_append_of_le (rows : List Row) (row : Row)
    (h : row.cube.length ≤ maxLength rows) : maxLength (rows ++ [row]) = maxLength rows := by
  have hfold (lengths : List Nat) (n : Nat) :
      (lengths ++ [n]).foldr max 0 = max (lengths.foldr max 0) n := by
    induction lengths with
    | nil => simp
    | cons m ms ih => simp only [List.cons_append, List.foldr_cons, ih, Nat.max_assoc]
  simp only [maxLength, List.map_append, List.map_cons, List.map_nil, hfold] at h ⊢
  exact Nat.max_eq_left h

theorem firstCovering_none (cube : Cube) (rows : List Row)
    (h : firstCovering cube rows = .ok none) (row : Row) (hrow : row ∈ rows)
    (hactive : row.isActive = true) :
    row.cube.length = cube.length ∧ row.cube.covers cube = false := by
  induction rows with
  | nil => exact absurd hrow (by simp)
  | cons first rest ih =>
    rw [firstCovering] at h
    by_cases ha : first.isActive = true
    · rw [if_pos ha] at h
      by_cases hl : first.cube.length = cube.length
      · have hc : first.covers cube = .ok (first.cube.covers cube) := by
          simp [covers, Cube.matched, hl]
        rw [hc] at h
        cases hcov : first.cube.covers cube with
        | true => simp [hcov] at h
        | false =>
          rw [hcov] at h
          rcases List.mem_cons.mp hrow with rfl | hmem
          · exact ⟨hl, hcov⟩
          · exact ih h hmem
      · have hc : first.covers cube = .error (.cubes first.cube cube) := by
          simp [covers, Cube.matched, hl]
        rw [hc] at h
        exact absurd h (by simp)
    · rw [if_neg ha] at h
      rcases List.mem_cons.mp hrow with rfl | hmem
      · exact absurd hactive ha
      · exact ih h hmem

end Row

/-- What a cancelling pass does to a row. -/
def cancelIfCovered (cube : Cube) (canceller : Int) (row : Row) : Row :=
  if row.isActive && cube.covers row.cube then row.cancel canceller else row

theorem cancelCovered_rows (cube : Cube) (canceller : Int) (rows : List Row)
    (h : ∀ row ∈ rows, row.isActive = true → row.cube.length = cube.length) :
    (cancelCovered cube canceller rows).rows = rows.map (cancelIfCovered cube canceller) ∧
      (cancelCovered cube canceller rows).fault? = none := by
  induction rows with
  | nil => exact ⟨rfl, rfl⟩
  | cons row rest ih =>
    have hrest := ih fun r hr => h r (List.mem_cons_of_mem _ hr)
    by_cases ha : row.isActive = true
    · have hm : cube.matched row.cube (cube.covers row.cube) = .ok (cube.covers row.cube) := by
        simp [Cube.matched, h row List.mem_cons_self ha]
      cases hc : cube.covers row.cube <;> rw [hc] at hm <;>
        simp [cancelCovered, ha, hm, hrest, cancelIfCovered, hc]
    · simp [cancelCovered, ha, hrest, cancelIfCovered]

theorem maxLength_map_cancelIfCovered (cube : Cube) (canceller : Int) (rows : List Row) :
    Row.maxLength (rows.map (cancelIfCovered cube canceller)) = Row.maxLength rows := by
  have hcube (row : Row) : (cancelIfCovered cube canceller row).cube = row.cube := by
    unfold cancelIfCovered
    split <;> rfl
  simp [Row.maxLength, Function.comp_def, hcube]

theorem anyCovers_after_append (cube : Cube) (row : Row) (canceller : Int) (rows : List Row)
    (hcube : row.cube = cube) (hactive : row.isActive = true) (d : Cube)
    (h : Row.anyCovers rows d = true) :
    Row.anyCovers (rows.map (cancelIfCovered cube canceller) ++ [row]) d = true := by
  simp only [Row.anyCovers, List.any_eq_true, Bool.and_eq_true] at h ⊢
  obtain ⟨old, hmem, ha, hcov⟩ := h
  by_cases hc : cube.covers old.cube = true
  · exact ⟨row, by simp, hactive, hcube ▸ Cube.covers_trans _ _ _ hc hcov⟩
  · refine ⟨old, List.mem_append_left _ (List.mem_map.mpr ⟨old, hmem, ?_⟩), ha, hcov⟩
    simp [cancelIfCovered, hc]

/-- An active row that no active row covered lowers the count of uncovered cubes. -/
theorem uncovered_lt (cube : Cube) (row : Row) (canceller : Int) (rows : List Row)
    (hcube : row.cube = cube) (hactive : row.isActive = true)
    (hlength : cube.length ≤ Row.maxLength rows) (hnew : Row.anyCovers rows cube = false) :
    Row.uncovered (rows.map (cancelIfCovered cube canceller) ++ [row]) < Row.uncovered rows := by
  have hmax : Row.maxLength (rows.map (cancelIfCovered cube canceller) ++ [row]) =
      Row.maxLength rows := by
    rw [Row.maxLength_append_of_le, maxLength_map_cancelIfCovered]
    rw [maxLength_map_cancelIfCovered, hcube]
    exact hlength
  rw [Row.uncovered, Row.uncovered, hmax]
  refine countP_lt_countP _ _ _ cube (Cube.mem_upTo cube _ hlength) ?_ ?_ ?_
  · intro d hd
    cases hcov : Row.anyCovers rows d with
    | false => rfl
    | true =>
      rw [anyCovers_after_append cube row canceller rows hcube hactive d hcov] at hd
      exact hd
  · have hself : Row.anyCovers (rows.map (cancelIfCovered cube canceller) ++ [row]) cube = true := by
      simp only [Row.anyCovers, List.any_append, List.any_cons, List.any_nil, Bool.or_false,
        Bool.or_eq_true, Bool.and_eq_true]
      exact Or.inr ⟨hactive, hcube ▸ Cube.covers_refl cube⟩
    rw [hself]
    rfl
  · rw [hnew]
    rfl

/-- A cancelled row at the end leaves the count of uncovered cubes as it is. -/
theorem uncovered_append_cancelled (rows : List Row) (row : Row) (hrow : row.isActive = false)
    (hlength : row.cube.length ≤ Row.maxLength rows) :
    Row.uncovered (rows ++ [row]) = Row.uncovered rows := by
  have hcovers (d : Cube) : Row.anyCovers (rows ++ [row]) d = Row.anyCovers rows d := by
    simp [Row.anyCovers, hrow]
  simp only [Row.uncovered, Row.maxLength_append_of_le rows row hlength, hcovers]

namespace Table

/-- What a step without a fault does: nothing, a cancelled row at the end, or progress. -/
inductive Advance (t t' : Table) : Prop
  | same (h : t' = t)
  | cancelled (row : Row) (hrow : row.isActive = false)
      (hlength : row.cube.length ≤ Row.maxLength t.rows.toList) (h : t' = ⟨t.rows.push row⟩)
  | progress (h : Row.uncovered t'.rows.toList < Row.uncovered t.rows.toList)

theorem appendConsensus_advance (t : Table) (cube : Cube) (formedBy : List Int)
    (hlength : cube.length ≤ Row.maxLength t.rows.toList)
    (hok : (t.appendConsensus cube formedBy).fault? = none) :
    Advance t (t.appendConsensus cube formedBy).table := by
  unfold appendConsensus at hok ⊢
  split at hok
  · exact absurd hok (by simp)
  · exact .cancelled _ rfl hlength rfl
  · rename_i hfirst
    have hnone := Row.firstCovering_none cube t.rows.toList hfirst
    have hpass := cancelCovered_rows cube t.nextNumber t.rows.toList
      fun row hrow ha => (hnone row hrow ha).1
    have hnew : Row.anyCovers t.rows.toList cube = false := by
      rw [Row.anyCovers, List.any_eq_false]
      intro row hrow hcov
      rw [Bool.and_eq_true] at hcov
      rw [(hnone row hrow hcov.1).2] at hcov
      exact absurd hcov.2 (by simp)
    simp only [hpass.2]
    refine .progress ?_
    simp only [appendTelling, Array.toList_push, hpass.1]
    exact uncovered_lt cube _ t.nextNumber t.rows.toList rfl rfl hlength hnew

theorem combine_advance (t : Table) (outer inner : Nat)
    (hok : (t.combine outer inner).fault? = none) : Advance t (t.combine outer inner).table := by
  unfold combine at hok ⊢
  split
  · rename_i a b ha hb
    rw [ha, hb] at hok
    simp only at hok
    split
    · exact .same rfl
    · rename_i hm
      rw [hm] at hok
      simp only at hok
      split
      · rename_i hone
        rw [if_pos hone] at hok
        refine appendConsensus_advance t _ _ ?_ hok
        have hmem : a ∈ t.rows.toList := by
          exact Array.mem_toList_iff.mpr (Array.mem_of_getElem? ha)
        exact Nat.le_trans (Cube.length_add a.cube b.cube ▸ Nat.min_le_left _ _)
          (Row.length_le_maxLength _ _ hmem)
      · exact .same rfl
  · exact .same rfl

end Table

end CubeCover
