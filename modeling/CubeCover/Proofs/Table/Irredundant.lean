import CubeCover.Proofs.Cube.Irredundant
import CubeCover.Proofs.Table.Primes

/-! When a run on different points ends in a cover without a superfluous cube. A run compares a new
cube with one row at a time: no survivor lies in another one, but it may lie in several together. A
survivor is superfluous exactly if consensus of the others leads to a cube over it. After an
exhaustive run none is superfluous exactly if each prime implicant has a point of its own. -/
namespace CubeCover

namespace Table

variable {t : Table} {seeds : List Cube} {n : Nat}

/-- After an exhaustive run on cubes apart a survivor is needed for a point that lies in no other
prime implicant. -/
theorem irredundant_run_iff (hlength : ∀ c ∈ seeds, c.length = n)
    (hapart : seeds.Pairwise Cube.Apart) (hrows : t.rows.toList = (seeds.zipIdx 1).map seedRow) :
    Cube.Irredundant (t.run true).table.survivors ↔ ∀ c, Cube.IsPrimeImplicant seeds c →
      ∃ p ∈ c.points, ∀ d, Cube.IsPrimeImplicant seeds d → p ∈ d.points → d = c := by
  have hend := t.reachable_run true
  have hkept := pairwise_apart_of_seedRows n hlength hapart hrows hend
  rw [Cube.irredundant_iff_of_nodup (Cube.nodup_of_pairwise_apart hkept)]
  simp only [mem_survivors_run_iff n hlength hapart hrows]

end Table

/-- A run on different points, exhaustive or not, leaves no survivor that lies in another one. Its
cover has no superfluous cube exactly if consensus, repeated on the other survivors, never makes a
cube over a survivor. For an exhaustive run this says that each prime implicant has a point that no
other prime implicant has. -/
theorem run_irredundant_iff (seeds : List Cube) (hne : seeds ≠ []) (hnodup : seeds.Nodup) (n : Nat)
    (hpoints : ∀ c ∈ seeds, c.IsPoint) (hlength : ∀ c ∈ seeds, c.length = n) :
    ∃ t, Table.ofSeeds seeds = .ok t ∧
      (∀ exhaustive, (t.run exhaustive).fault? = none ∧
        (t.run exhaustive).table.survivors.Pairwise Cube.Apart ∧
        (Cube.Irredundant (t.run exhaustive).table.survivors ↔
          ∀ l c r, (t.run exhaustive).table.survivors = l ++ c :: r →
            ∀ d, Cube.Obtainable (l ++ r) d → d.covers c = false)) ∧
      (Cube.Irredundant (t.run true).table.survivors ↔ ∀ c, Cube.IsPrimeImplicant seeds c →
        ∃ p ∈ c.points, ∀ d, Cube.IsPrimeImplicant seeds d → p ∈ d.points → d = c) := by
  obtain ⟨t, hseeds, hrows⟩ := Table.ofSeeds_spec seeds hne n hlength
  have ht := Table.uniform_of_seedRows hrows n hlength
  have hapart := Cube.pairwise_apart_of_points hnodup hpoints
  refine ⟨t, hseeds, ?_, Table.irredundant_run_iff hlength hapart hrows⟩
  intro exhaustive
  have hend : Run.Reachable t (t.run exhaustive) := (Run.Reachable.start exhaustive).complete.1
  have hrep := (Table.Represents.of_seedRows hlength hrows).of_reachable hend
  have hkept := Table.pairwise_apart_of_seedRows n hlength hapart hrows hend
  exact ⟨hend.fault?_eq_none n ht, hkept,
    Cube.irredundant_iff_obtainable hrep.length_survivors⟩

/-- Three points of a square have two prime implicants, and each of them has a point of its own. -/
theorem run_irredundant_of_three_points :
    ∃ t, Table.ofSeeds [⟨[.one, .zero]⟩, ⟨[.zero, .one]⟩, ⟨[.one, .one]⟩] = .ok t ∧
      Cube.Irredundant (t.run true).table.survivors ∧
      ∀ c, Cube.IsPrimeImplicant [⟨[.one, .zero]⟩, ⟨[.zero, .one]⟩, ⟨[.one, .one]⟩] c →
        ∃ p ∈ c.points, ∀ d,
          Cube.IsPrimeImplicant [⟨[.one, .zero]⟩, ⟨[.zero, .one]⟩, ⟨[.one, .one]⟩] d →
          p ∈ d.points → d = c := by
  obtain ⟨t, ht, _, hiff⟩ := run_irredundant_iff
    [⟨[.one, .zero]⟩, ⟨[.zero, .one]⟩, ⟨[.one, .one]⟩] (by decide) (by decide) 2 (by decide)
    (by decide)
  have hsurvivors : (t.run true).table.survivors = [⟨[.free, .one]⟩, ⟨[.one, .free]⟩] := by
    obtain rfl := Except.ok.inj ht
    exact beq_iff_eq.mp (Run.complete_check 14
      (fun r => r.table.survivors == [⟨[.free, .one]⟩, ⟨[.one, .free]⟩]) (by decide))
  have hirredundant : Cube.Irredundant (t.run true).table.survivors := by
    rw [hsurvivors, Cube.irredundant_iff_of_nodup (by decide)]
    decide
  exact ⟨t, ht, hirredundant, hiff.mp hirredundant⟩

/-- Four points on which both runs leave three cubes, and the first one lies in the other two
together. -/
theorem run_leaves_superfluous_cube :
    ∃ t, Table.ofSeeds [⟨[.one, .zero, .zero]⟩, ⟨[.zero, .one, .zero]⟩, ⟨[.one, .one, .zero]⟩,
        ⟨[.zero, .one, .one]⟩] = .ok t ∧
      ∀ exhaustive, ¬ Cube.Irredundant (t.run exhaustive).table.survivors := by
  obtain ⟨t, ht⟩ : ∃ t, Table.ofSeeds [⟨[.one, .zero, .zero]⟩, ⟨[.zero, .one, .zero]⟩,
      ⟨[.one, .one, .zero]⟩, ⟨[.zero, .one, .one]⟩] = .ok t := ⟨_, rfl⟩
  refine ⟨t, ht, ?_⟩
  intro exhaustive hirredundant
  have hsurvivors : (t.run exhaustive).table.survivors =
      [⟨[.free, .one, .zero]⟩, ⟨[.one, .free, .zero]⟩, ⟨[.zero, .one, .free]⟩] := by
    obtain rfl := Except.ok.inj ht
    cases exhaustive with
    | false => exact beq_iff_eq.mp (Run.complete_check 20 (fun r => r.table.survivors ==
        [⟨[.free, .one, .zero]⟩, ⟨[.one, .free, .zero]⟩, ⟨[.zero, .one, .free]⟩]) (by decide))
    | true => exact beq_iff_eq.mp (Run.complete_check 28 (fun r => r.table.survivors ==
        [⟨[.free, .one, .zero]⟩, ⟨[.one, .free, .zero]⟩, ⟨[.zero, .one, .free]⟩]) (by decide))
  -- of the points of the first survivor one lies in the second and one in the third
  obtain ⟨p, hp, hown⟩ := hirredundant [] ⟨[.free, .one, .zero]⟩ _ hsurvivors
  have hshared : ∀ p ∈ Cube.points ⟨[.free, .one, .zero]⟩,
      ∃ d ∈ [⟨[.one, .free, .zero]⟩, ⟨[.zero, .one, .free]⟩], p ∈ Cube.points d := by decide
  obtain ⟨d, hd, hmem⟩ := hshared p hp
  exact hown d hd hmem

end CubeCover
