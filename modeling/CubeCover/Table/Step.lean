import CubeCover.Table.Basic

/-! One step of the consensus procedure: two rows are combined, and the consensus of their cubes
becomes a new row if they conflict at exactly one place. -/
namespace CubeCover

/-- What happens to a table. -/
inductive Event
  /-- A row is cancelled by the row of a number. -/
  | cancelled (number : Int) (cube : Cube) (canceller : Int)
  /-- A row is appended. -/
  | appended (row : Row)
  deriving DecidableEq, Repr

/-- Rows after a cancelling pass, with the events and the mismatch that ended the pass. -/
structure Pass where
  rows : List Row
  events : List Event
  fault? : Option ShapeMismatch

/-- Cancels the active rows that a cube covers. The pass ends early at an active row of another
length. -/
def cancelCovered (cube : Cube) (canceller : Int) : List Row → Pass
  | [] => ⟨[], [], none⟩
  | row :: rest =>
    if row.isActive then
      match cube.matched row.cube (cube.covers row.cube) with
      | .error e => ⟨row :: rest, [], some e⟩
      | .ok true =>
        let pass := cancelCovered cube canceller rest
        ⟨row.cancel canceller :: pass.rows,
          .cancelled row.number row.cube canceller :: pass.events, pass.fault?⟩
      | .ok false =>
        let pass := cancelCovered cube canceller rest
        ⟨row :: pass.rows, pass.events, pass.fault?⟩
    else
      let pass := cancelCovered cube canceller rest
      ⟨row :: pass.rows, pass.events, pass.fault?⟩

/-- A table after a step, with the events and the mismatch that ended the step. -/
structure Step where
  table : Table
  events : List Event
  fault? : Option ShapeMismatch

namespace Table

/-- Appends a row and tells of it after earlier events. -/
def appendTelling (t : Table) (row : Row) (events : List Event) : Step :=
  ⟨⟨t.rows.push row⟩, events ++ [.appended row], none⟩

/-- Appends a consensus. If an active row covers it, the first such row cancels it; otherwise it
cancels the active rows that it covers. -/
def appendConsensus (t : Table) (cube : Cube) (formedBy : List Int) : Step :=
  match t.firstCovering cube with
  | .error e => ⟨t, [], some e⟩
  | .ok (some row) => t.appendTelling ⟨t.nextNumber, cube, formedBy, some row.number⟩ []
  | .ok none =>
    let pass := cancelCovered cube t.nextNumber t.rows.toList
    match pass.fault? with
    | some e => ⟨⟨pass.rows.toArray⟩, pass.events, some e⟩
    | none => appendTelling ⟨pass.rows.toArray⟩ ⟨t.nextNumber, cube, formedBy, none⟩ pass.events

/-- Combines the rows at two places. -/
def combine (t : Table) (outer inner : Nat) : Step :=
  match t.rows[inner]?, t.rows[outer]? with
  | some a, some b =>
    match a.cube.matched b.cube (a.cube.conflicts b.cube) with
    | .error e => ⟨t, [], some e⟩
    | .ok conflicts =>
      if conflicts = 1 then
        t.appendConsensus (a.cube.consensus b.cube)
          [Int.ofNat (outer + 1), Int.ofNat (inner + 1)]
      else ⟨t, [], none⟩
  | _, _ => ⟨t, [], none⟩

end Table

end CubeCover
