import CubeCover.Proofs.Table.Reachable

/-! The active rows of a consensus table cover the points of its seeds, and no others, in every
state of every run. Rows that are cancelled do not leave the seeds' points either, so that one of
them may still be combined. -/
namespace CubeCover

namespace Table

/-- The cubes of all rows are implicants of some seeds, and each seed has a survivor over it. -/
structure Represents (t : Table) (seeds : List Cube) (n : Nat) : Prop where
  uniform : t.Uniform n
  inside : ∀ row ∈ t.rows.toList, Cube.IsImplicant seeds row.cube
  covered : ∀ s ∈ seeds, Cube.CoveredBy t.survivors s

namespace Represents

variable {t : Table} {seeds : List Cube} {n : Nat}

theorem of_seedRows (hlength : ∀ c ∈ seeds, c.length = n)
    (h : t.rows.toList = (seeds.zipIdx 1).map seedRow) : t.Represents seeds n := by
  refine ⟨uniform_of_seedRows h n hlength, ?_, ?_⟩
  · intro row hrow p hp
    exact ⟨row.cube, (of_mem_seedRows h hrow).1, hp⟩
  · intro s hs
    rw [survivors_of_seedRows h]
    exact ⟨s, hs, Cube.covers_refl s⟩

theorem combined {t' : Table} {outer inner : Nat} {a b : Row} (h : t.Represents seeds n)
    (ha : a ∈ t.rows.toList) (hb : b ∈ t.rows.toList) (hstep : Combined t outer inner a b t') :
    t'.Represents seeds n := by
  refine ⟨uniform_of_combined n h.uniform ha hb hstep, ?_, ?_⟩
  · -- rows `a` and `b` are inside the seeds whether they are active or not
    intro row hrow
    rcases hstep.cube_cases hrow with ⟨old, hold, hcube⟩ | ⟨hone, hcube⟩
    · exact hcube ▸ h.inside old hold
    · rw [hcube]
      have hlength := (h.uniform a ha).trans (h.uniform b hb).symm
      exact Cube.isImplicant_consensus seeds _ _ hlength hone (h.inside a ha) (h.inside b hb)
  · intro s hs
    exact hstep.coveredBy (h.covered s hs)

theorem of_reachable {r : Run} (h : t.Represents seeds n) (hr : Run.Reachable t r) :
    r.table.Represents seeds n :=
  (hr.combined_induction (P := fun t => t.Represents seeds n) n h.uniform h
    fun _ _ _ _ _ _ _ ha hb hstep ht => ht.combined ha hb hstep).2

theorem length_survivors (h : t.Represents seeds n) : ∀ c ∈ t.survivors, c.length = n := by
  intro c hc
  obtain ⟨row, hrow, _, rfl⟩ := (mem_survivors t c).mp hc
  exact h.uniform row hrow

theorem coveredBy_iff (h : t.Represents seeds n) (p : Cube) (hp : p.IsPoint) :
    Cube.CoveredBy t.survivors p ↔ Cube.CoveredBy seeds p := by
  constructor
  · intro hcovered
    obtain ⟨c, hc, hcov⟩ := hcovered
    obtain ⟨row, hrow, _, rfl⟩ := (mem_survivors t c).mp hc
    exact (Cube.isImplicant_iff seeds row.cube).mp (h.inside row hrow) p hp hcov
  · intro hcovered
    obtain ⟨s, hs, hcov⟩ := hcovered
    exact Cube.coveredBy_of_covers _ s p (h.covered s hs) hcov

theorem isImplicant_iff (h : t.Represents seeds n) (d : Cube) :
    Cube.IsImplicant seeds d ↔ Cube.IsImplicant t.survivors d := by
  rw [Cube.isImplicant_iff, Cube.isImplicant_iff]
  constructor
  · intro hd p hp hcov
    exact (h.coveredBy_iff p hp).mpr (hd p hp hcov)
  · intro hd p hp hcov
    exact (h.coveredBy_iff p hp).mp (hd p hp hcov)

/-- If the seeds are points, the survivors have no others. -/
theorem points_subset (h : t.Represents seeds n) (hpoints : ∀ s ∈ seeds, s.IsPoint) :
    ∀ c ∈ t.survivors, c.points ⊆ seeds := by
  intro c hc
  obtain ⟨row, hrow, _, rfl⟩ := (mem_survivors t c).mp hc
  exact (Cube.isImplicant_iff_points hpoints row.cube).mp (h.inside row hrow)

end Represents

end Table

/-- In every state of any number of runs, the active rows cover the points that the seeds cover, and
there is an active row. -/
theorem active_rows_cover_seed_points (seeds : List Cube) (hne : seeds ≠ []) (n : Nat)
    (hlength : ∀ c ∈ seeds, c.length = n) :
    ∃ t, Table.ofSeeds seeds = .ok t ∧ ∀ r, Run.Reachable t r →
      (∀ p : Cube, p.IsPoint →
        ((∃ row ∈ r.table.rows.toList, row.isActive = true ∧ row.cube.covers p = true) ↔
          ∃ s ∈ seeds, s.covers p = true)) ∧
      ∃ row ∈ r.table.rows.toList, row.isActive = true := by
  obtain ⟨t, hseeds, hrows⟩ := Table.ofSeeds_spec seeds hne n hlength
  refine ⟨t, hseeds, ?_⟩
  intro r hr
  have h := (Table.Represents.of_seedRows hlength hrows).of_reachable hr
  constructor
  · intro p hp
    have hiff := h.coveredBy_iff p hp
    constructor
    · intro hcovered
      obtain ⟨row, hrow, hactive, hcov⟩ := hcovered
      exact hiff.mp ⟨row.cube, (Table.mem_survivors _ _).mpr ⟨row, hrow, hactive, rfl⟩, hcov⟩
    · intro hs
      obtain ⟨c, hc, hcov⟩ := hiff.mpr hs
      obtain ⟨row, hrow, hactive, rfl⟩ := (Table.mem_survivors _ _).mp hc
      exact ⟨row, hrow, hactive, hcov⟩
  · -- some seed is there, and a survivor over it
    obtain ⟨s, hs⟩ := List.exists_mem_of_ne_nil seeds hne
    obtain ⟨c, hc, _⟩ := h.covered s hs
    obtain ⟨row, hrow, hactive, _⟩ := (Table.mem_survivors _ _).mp hc
    exact ⟨row, hrow, hactive⟩

/-- After a run on three overlapping cubes the point (0,0,1) is covered, and (0,0,0) is not. -/
theorem active_rows_cover_three_seeds :
    ∃ t, Table.ofSeeds [⟨[.one, .one, .free]⟩, ⟨[.zero, .free, .one]⟩, ⟨[.zero, .one, .one]⟩] =
        .ok t ∧
      (∃ row ∈ (t.run true).table.rows.toList, row.isActive = true ∧
        row.cube.covers ⟨[.zero, .zero, .one]⟩ = true) ∧
      ¬ ∃ row ∈ (t.run true).table.rows.toList, row.isActive = true ∧
        row.cube.covers ⟨[.zero, .zero, .zero]⟩ = true := by
  obtain ⟨t, ht, h⟩ := active_rows_cover_seed_points
    [⟨[.one, .one, .free]⟩, ⟨[.zero, .free, .one]⟩, ⟨[.zero, .one, .one]⟩] (by decide) 3 (by decide)
  have hpoints := (h (t.run true) (Run.Reachable.start true).complete.1).1
  refine ⟨t, ht, ?_, ?_⟩
  · exact (hpoints ⟨[.zero, .zero, .one]⟩ (by decide)).mpr (by decide)
  · intro hrow
    exact absurd ((hpoints ⟨[.zero, .zero, .zero]⟩ (by decide)).mp hrow) (by decide)

end CubeCover
