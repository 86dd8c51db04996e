import CubeCover.Proofs.Cube.Corners

/-! Cubes as sets of points. A cube lists each of its points once, two to the power of its free digits of
them. It covers another cube just if it has all the points of that cube, for which the two corners are
enough; so covering orders the cubes as inclusion orders sets. -/
namespace CubeCover

/-- A digit that covers the least and the greatest digit of another one covers this digit as well. -/
theorem Digit.covers_of_corners (a b : Digit) (hlow : a.covers b.lowest = true)
    (hhigh : a.covers b.highest = true) : a.covers b = true := by
  revert hlow hhigh
  cases a <;> cases b <;> decide

namespace Cube

theorem covers_of_corners (a b : Cube) (hlow : a.covers (b.corner Digit.lowest) = true)
    (hhigh : a.covers (b.corner Digit.highest) = true) : a.covers b = true := by
  obtain ⟨as⟩ := a
  obtain ⟨bs⟩ := b
  -- the three coverings walk along the same digits
  induction as generalizing bs with
  | nil =>
    cases bs with
    | nil => exact covers_refl ⟨[]⟩
    | cons b bs => exact absurd hlow (by simp [corner, covers, coversDigits])
  | cons a as ih =>
    cases bs with
    | nil => exact absurd hlow (by simp [corner, covers, coversDigits])
    | cons b bs =>
      have hlows := (covers_cons a b.lowest as (bs.map Digit.lowest)).mp hlow
      have hhighs := (covers_cons a b.highest as (bs.map Digit.highest)).mp hhigh
      apply (covers_cons a b as bs).mpr
      constructor
      · exact Digit.covers_of_corners a b hlows.1 hhighs.1
      · exact ih bs hlows.2 hhighs.2

/-- A cube covers another one just if it has all its points. -/
theorem covers_iff_points_subset (a b : Cube) : a.covers b = true ↔ b.points ⊆ a.points := by
  constructor
  · intro hcov p hp
    obtain ⟨hpoint, hpcov⟩ := (mem_points_iff b p).mp hp
    apply (mem_points_iff a p).mpr
    exact ⟨hpoint, covers_trans a b p hcov hpcov⟩
  · intro hsubset
    -- the corners of the second cube are points of the first
    have hcorner (choice : Digit → Digit)
        (h : ∀ d, choice d ≠ .free ∧ d.covers (choice d) = true) :
        a.covers (b.corner choice) = true := by
      apply And.right
      apply (mem_points_iff a (b.corner choice)).mp
      exact hsubset (corner_mem_points h b)
    apply covers_of_corners a b
    · exact hcorner Digit.lowest Digit.lowest_spec
    · exact hcorner Digit.highest Digit.highest_spec

theorem points_cons (d : Digit) (ds : List Digit) :
    points ⟨d :: ds⟩ = d.points.flatMap fun e => (points ⟨ds⟩).map fun p => ⟨e :: p.digits⟩ := by
  simp [points, List.map_flatMap, Function.comp_def]

theorem freeCount_cons (d : Digit) (ds : List Digit) :
    freeCount ⟨d :: ds⟩ = freeCount ⟨ds⟩ + if d = .free then 1 else 0 := by
  simp [freeCount, List.countP_cons]

theorem nodup_map_cons (e : Digit) {cubes : List Cube} (h : cubes.Nodup) :
    (cubes.map fun p => (⟨e :: p.digits⟩ : Cube)).Nodup := by
  apply h.map
  intro p q hpq
  have hdigits := (List.cons.inj (Cube.mk.inj hpq)).2
  exact congrArg Cube.mk hdigits

/-- No point of a cube is listed twice, and every free digit doubles the number of points. -/
theorem points_spec (a : Cube) : a.points.Nodup ∧ a.points.length = Nat.pow 2 a.freeCount := by
  obtain ⟨ds⟩ := a
  induction ds with
  | nil => exact ⟨List.nodup_singleton _, rfl⟩
  | cons d ds ih =>
    have hhalf (e : Digit) := nodup_map_cons e ih.1
    rw [points_cons, freeCount_cons]
    cases d with
    | zero =>
      simp only [Digit.points, List.flatMap_singleton, List.length_map]
      exact ⟨hhalf .zero, ih.2⟩
    | one =>
      simp only [Digit.points, List.flatMap_singleton, List.length_map]
      exact ⟨hhalf .one, ih.2⟩
    | free =>
      simp only [Digit.points, List.flatMap_cons, List.flatMap_nil, List.append_nil,
        List.length_append, List.length_map, ih.2]
      constructor
      · apply List.Nodup.append (hhalf .zero) (hhalf .one)
        -- the two halves differ in the first digit
        intro p hzero hone
        obtain ⟨q, _, rfl⟩ := List.mem_map.mp hzero
        obtain ⟨q', _, hq'⟩ := List.mem_map.mp hone
        have hdigits := (List.cons.inj (Cube.mk.inj hq')).1
        exact absurd hdigits (by decide)
      · show Nat.pow 2 (freeCount ⟨ds⟩) + Nat.pow 2 (freeCount ⟨ds⟩) =
          Nat.pow 2 (freeCount ⟨ds⟩) * 2
        omega

end Cube

/-- The points of a cube are the cubes of its length that it covers and that have no free digit; each is
listed once, and there are two to the power of the free digits of them. Of two cubes one covers the other
just if it has all its points. Hence covering is a partial order. -/
theorem covering_is_inclusion_of_points :
    (∀ a p : Cube, p ∈ a.points ↔ p.IsPoint ∧ p.length = a.length ∧ a.covers p = true) ∧
    (∀ a : Cube, a.points.Nodup ∧ a.points.length = Nat.pow 2 a.freeCount) ∧
    (∀ a b : Cube, a.covers b = true ↔ b.points ⊆ a.points) ∧
    (∀ a : Cube, a.covers a = true) ∧
    (∀ a b c : Cube, a.covers b = true → b.covers c = true → a.covers c = true) ∧
    ∀ a b : Cube, a.covers b = true → b.covers a = true → a = b := by
  refine ⟨?_, Cube.points_spec, Cube.covers_iff_points_subset, Cube.covers_refl, ?_, ?_⟩
  · intro a p
    rw [Cube.mem_points_iff]
    constructor
    · rintro ⟨hpoint, hcov⟩
      exact ⟨hpoint, (Cube.covers_length a p hcov).symm, hcov⟩
    · rintro ⟨hpoint, _, hcov⟩
      exact ⟨hpoint, hcov⟩
  · -- both orders are those of the points
    intro a b c hab hbc
    rw [Cube.covers_iff_points_subset] at hab hbc ⊢
    exact List.Subset.trans hbc hab
  · exact Cube.covers_antisymm

/-- A line, a point of it and a point next to it. -/
theorem covering_is_inclusion_of_points_of_line :
    Cube.covers ⟨[.one, .free]⟩ ⟨[.one, .zero]⟩ = true ∧
      Cube.points ⟨[.one, .zero]⟩ ⊆ Cube.points ⟨[.one, .free]⟩ ∧
      Cube.covers ⟨[.free, .free]⟩ ⟨[.one, .zero]⟩ = true ∧
      Cube.covers ⟨[.one, .free]⟩ ⟨[.zero, .zero]⟩ = false ∧
      (Cube.points ⟨[.one, .free]⟩).length = 2 := by
  obtain ⟨_, hcount, hsubset, _, htrans, _⟩ := covering_is_inclusion_of_points
  have hcov : Cube.covers ⟨[.one, .free]⟩ ⟨[.one, .zero]⟩ = true := by decide
  have hfree : Cube.covers ⟨[.free, .free]⟩ ⟨[.one, .free]⟩ = true := by decide
  exact ⟨hcov, (hsubset _ _).mp hcov, htrans _ _ _ hfree hcov, by decide, (hcount _).2⟩

end CubeCover
