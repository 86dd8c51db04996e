import CubeCover.Cube.Basic
import CubeCover.Formula.Normal

/-! The formula that some cubes stand for: the disjunction of their product terms. -/
namespace CubeCover

/-- The assignments of some cubes, or the first mismatch. -/
def Cube.toAssignments (names : List String) : List Cube → Except ShapeMismatch (List Assignment)
  | [] => .ok []
  | cube :: cubes =>
    match cube.toAssignment names with
    | .error e => .error e
    | .ok a =>
      match toAssignments names cubes with
      | .error e => .error e
      | .ok rest => .ok (a :: rest)

/-- The disjunction of the product terms of some cubes, whose digits belong to the names in order.
No cube at all is false, and a cube of free digits alone is true. -/
def Formula.ofCubes (names : List String) (cubes : List Cube) : Except ShapeMismatch Formula :=
  match cubes with
  | [] => .ok falsum
  | first :: _ =>
    if cubes.all (·.length = first.length) then
      match Cube.toAssignments names cubes with
      | .error e => .error e
      | .ok terms => .ok (ofProductTerms terms)
    else .error .terms

end CubeCover
