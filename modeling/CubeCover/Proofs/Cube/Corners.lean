import CubeCover.Proofs.Cube.Points
import Mathlib.Data.List.Nodup
import Mathlib.Data.List.ProdSigma

/-! The two corners of a cube: its least and its greatest point. They tell a cube from any other, so that
points in some number have at most the square of that number of cubes between them. -/
namespace CubeCover

/-- The least of the digits that a digit covers. -/
def Digit.lowest : Digit → Digit
  | .free => .zero
  | digit => digit

/-- The greatest of the digits that a digit covers. -/
def Digit.highest : Digit → Digit
  | .free => .one
  | digit => digit

theorem Digit.lowest_spec (d : Digit) : d.lowest ≠ .free ∧ d.covers d.lowest = true := by
  cases d <;> decide

theorem Digit.highest_spec (d : Digit) : d.highest ≠ .free ∧ d.covers d.highest = true := by
  cases d <;> decide

theorem Digit.eq_of_corners (a b : Digit) (hlow : a.lowest = b.lowest)
    (hhigh : a.highest = b.highest) : a = b := by
  revert hlow hhigh
  cases a <;> cases b <;> decide

namespace Cube

/-- The point of a cube with the digits that a choice makes of its own ones. -/
def corner (choice : Digit → Digit) (c : Cube) : Cube := ⟨c.digits.map choice⟩

theorem corner_mem_points {choice : Digit → Digit}
    (h : ∀ d, choice d ≠ .free ∧ d.covers (choice d) = true) (c : Cube) :
    c.corner choice ∈ c.points := by
  rw [mem_points_iff]
  constructor
  · intro hfree
    obtain ⟨d, _, hd⟩ := List.mem_map.mp hfree
    exact (h d).1 hd
  · rw [covers_iff_forall₂, corner, List.forall₂_map_right_iff, List.forall₂_same]
    intro d _
    exact (h d).2

theorem eq_of_corners (a b : Cube) (hlow : a.corner Digit.lowest = b.corner Digit.lowest)
    (hhigh : a.corner Digit.highest = b.corner Digit.highest) : a = b := by
  obtain ⟨as⟩ := a
  obtain ⟨bs⟩ := b
  have hlows : as.map Digit.lowest = bs.map Digit.lowest := Cube.mk.inj hlow
  have hhighs : as.map Digit.highest = bs.map Digit.highest := Cube.mk.inj hhigh
  have hsame : as = bs := by
    apply List.ext_getElem?
    intro i
    -- at each place the two digits have the same least and the same greatest digit
    have hl := congrArg (fun l => l[i]?) hlows
    have hh := congrArg (fun l => l[i]?) hhighs
    simp only [List.getElem?_map] at hl hh
    cases ha : as[i]? with
    | none => cases hb : bs[i]? with
      | none => rfl
      | some y => simp [ha, hb] at hl
    | some x => cases hb : bs[i]? with
      | none => simp [ha, hb] at hl
      | some y =>
        simp only [ha, hb, Option.map_some, Option.some.injEq] at hl hh
        rw [Digit.eq_of_corners x y hl hh]
  rw [hsame]

/-- Different cubes whose points are among some points are no more than pairs of these points. -/
theorem length_le_of_points {cubes points : List Cube} (hnodup : cubes.Nodup)
    (h : ∀ c ∈ cubes, c.points ⊆ points) : cubes.length ≤ points.length * points.length := by
  have hpairs : (cubes.map fun c => (c.corner Digit.lowest, c.corner Digit.highest)).Nodup := by
    apply hnodup.map
    intro a b hab
    exact eq_of_corners a b (Prod.mk.inj hab).1 (Prod.mk.inj hab).2
  have hsubset : (cubes.map fun c => (c.corner Digit.lowest, c.corner Digit.highest)) ⊆
      points ×ˢ points := by
    intro pair hpair
    obtain ⟨c, hc, rfl⟩ := List.mem_map.mp hpair
    apply List.mem_product.mpr
    constructor
    · apply h c hc
      exact corner_mem_points Digit.lowest_spec c
    · apply h c hc
      exact corner_mem_points Digit.highest_spec c
  have hle := hpairs.length_le_of_subset hsubset
  rw [List.length_map, List.length_product] at hle
  exact hle

end Cube

end CubeCover
