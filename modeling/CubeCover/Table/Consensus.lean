import CubeCover.Table.Progress

/-! The consensus procedure. An outer row goes up from the second row; below it an inner row goes down
to the first one, and the two are combined. Rows that are cancelled when their turn comes are passed
over. Rows appended on the way take their turn as outer rows, but the last row of the table does so
only if the procedure is exhaustive. -/
namespace CubeCover

/-- The procedure on its way. -/
structure Run where
  table : Table
  exhaustive : Bool
  /-- The place of the outer row. -/
  outer : Nat
  /-- How many inner rows are left for this outer row; the last of them is next. -/
  inner : Nat
  /-- What has happened, the latest first. -/
  trail : List Event
  /-- The mismatch that ended the run. -/
  fault? : Option ShapeMismatch

namespace Run

/-- Before the second row takes its turn. -/
def start (table : Table) (exhaustive : Bool) : Run := ⟨table, exhaustive, 0, 0, [], none⟩

/-- What has happened, in order. -/
def events (r : Run) : List Event := r.trail.reverse

/-- How many rows at the end of the table are no outer rows. -/
def tail (r : Run) : Nat := if r.exhaustive then 0 else 1

/-- The next outer row takes its turn, if there is one. -/
def nextOuter? (r : Run) : Option Run :=
  let outer := r.outer + 1
  if outer + r.tail < r.table.size then
    some { r with outer := outer, inner := if r.table.isActiveAt outer then outer else 0 }
  else none

/-- The inner row at a place takes its turn. -/
def visit (r : Run) (inner : Nat) : Run :=
  if r.table.isActiveAt inner then
    let step := r.table.combine r.outer inner
    { r with
      table := step.table
      inner := inner
      trail := step.events.reverse ++ r.trail
      fault? := step.fault? }
  else { r with inner := inner }

/-- The next state, unless the run has ended. -/
def next? (r : Run) : Option Run :=
  match r.fault? with
  | some _ => none
  | none =>
    match r.inner with
    | 0 => r.nextOuter?
    | inner + 1 => some (r.visit inner)

/-- How many active rows there are after the outer row. -/
def activeAfter (r : Run) : Nat := (r.table.rows.toList.drop (r.outer + 1)).countP Row.isActive

/-- What each step lowers, compared from left to right: whether the run goes on, the cubes that no
active row covers, the active rows after the outer row, the inner rows left, and the rows left. -/
def rank (r : Run) : Nat × Nat × Nat × Nat × Nat :=
  (if r.fault? = none then 1 else 0, Row.uncovered r.table.rows.toList, r.activeAfter, r.inner,
    r.table.size - r.outer)

abbrev RankLt : Nat × Nat × Nat × Nat × Nat → Nat × Nat × Nat × Nat × Nat → Prop :=
  Prod.Lex (· < ·) (Prod.Lex (· < ·) (Prod.Lex (· < ·) (Prod.Lex (· < ·) (· < ·))))

theorem rank_nextOuter?_lt (r r' : Run) (h : r.nextOuter? = some r') (hinner : r.inner = 0) :
    RankLt r'.rank r.rank := by
  unfold nextOuter? at h
  simp only at h
  split at h
  · rename_i hsize
    have hplace : r.outer + 1 < r.table.rows.size := by
      simp only [Table.size] at hsize
      omega
    have hdrop : r.table.rows.toList.drop (r.outer + 1) =
        r.table.rows[r.outer + 1] :: r.table.rows.toList.drop (r.outer + 1 + 1) := by
      rw [List.drop_eq_getElem_cons (by simpa using hplace), Array.getElem_toList]
    have hat : r.table.isActiveAt (r.outer + 1) = r.table.rows[r.outer + 1].isActive := by
      simp [Table.isActiveAt, hplace]
    simp only [Option.some.injEq] at h
    subst h
    refine .right _ (.right _ ?_)
    simp only [activeAfter, hdrop, List.countP_cons, hat, hinner]
    cases ha : r.table.rows[r.outer + 1].isActive with
    | true => exact .left _ _ (by simp)
    | false =>
      have hless : r.table.size - (r.outer + 1) < r.table.size - r.outer := by
        simp only [Table.size]
        omega
      simpa using Prod.Lex.right _ (Prod.Lex.right _ hless)
  · exact absurd h (by simp)

theorem rank_visit_lt (r : Run) (inner : Nat) (hfault : r.fault? = none)
    (hinner : r.inner = inner + 1) : RankLt (r.visit inner).rank r.rank := by
  have hless : inner < r.inner := hinner ▸ Nat.lt_succ_self inner
  unfold visit
  split
  · cases hf : (r.table.combine r.outer inner).fault? with
    | some e => exact .left _ _ (by simp [hfault, hf])
    | none =>
      simp only [rank, hfault, hf, if_true]
      refine .right _ ?_
      rcases Table.combine_advance r.table r.outer inner hf with h | ⟨row, hrow, hlength, h⟩ | h
      · simp only [activeAfter, h]
        exact .right _ (.right _ (.left _ _ hless))
      · have hafter : ((r.table.rows.toList ++ [row]).drop (r.outer + 1)).countP Row.isActive =
            (r.table.rows.toList.drop (r.outer + 1)).countP Row.isActive := by
          rw [List.drop_append, List.countP_append]
          have hnone : ([row].drop (r.outer + 1 - r.table.rows.toList.length)).countP
              Row.isActive = 0 := by
            refine List.countP_eq_zero.mpr fun x hx => ?_
            rw [List.mem_singleton.mp (List.mem_of_mem_drop hx), hrow]
            exact Bool.false_ne_true
          rw [hnone, Nat.add_zero]
        simp only [activeAfter, h, Array.toList_push, hafter,
          uncovered_append_cancelled _ row hrow hlength]
        exact .right _ (.right _ (.left _ _ hless))
      · exact .left _ _ h
  · exact .right _ (.right _ (.right _ (.left _ _ hless)))

theorem rank_next?_lt (r r' : Run) (h : r.next? = some r') : RankLt r'.rank r.rank := by
  unfold next? at h
  split at h
  · exact absurd h (by simp)
  · rename_i hfault
    split at h
    · rename_i hinner
      exact rank_nextOuter?_lt r r' h hinner
    · rename_i inner hinner
      exact Option.some.inj h ▸ rank_visit_lt r inner hfault hinner

/-- The run at its end. -/
def complete (r : Run) : Run :=
  match _h : r.next? with
  | none => r
  | some r' => r'.complete
termination_by r.rank
decreasing_by exact rank_next?_lt r r' (by assumption)

end Run

/-- Runs the procedure on a table. -/
def Table.run (t : Table) (exhaustive : Bool) : Run := (Run.start t exhaustive).complete

end CubeCover
