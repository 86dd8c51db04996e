import CubeCover.Proofs.Table.Closure

/-! What a default run leaves undone. Only the last row of the table has no turn as the outer row, so that
all other active rows are settled with one another. If the last row is cancelled, nothing is left. -/
namespace CubeCover

namespace Table

variable {t : Table} {i j : Nat} {a b : Row}

/-- A default run ends when the last row but one has had its turn. -/
theorem le_outer_default_run (n : Nat) (ht : t.Uniform n)
    (hi : i + 1 < (t.run false).table.size) : i ≤ (t.run false).outer := by
  have hsize : (t.run false).table.size ≤ (t.run false).outer + 1 + 1 := (t.run_end false n ht).2
  omega

theorem coveredBy_default_run (n : Nat) (ht : t.Uniform n)
    (hi : i + 1 < (t.run false).table.size) (hj : j + 1 < (t.run false).table.size)
    (ha : (t.run false).table.rows[i]? = some a) (hb : (t.run false).table.rows[j]? = some b)
    (hactivea : a.isActive = true) (hactiveb : b.isActive = true)
    (hone : a.cube.conflicts b.cube = 1) :
    Cube.CoveredBy (t.run false).table.survivors (a.cube.consensus b.cube) := by
  have hsettled := (t.reachable_run false).settled n ht
  apply hsettled.coveredBy_consensus (t.run_end false n ht).1 _ _ ha hb hactivea hactiveb hone
  · exact le_outer_default_run n ht hi
  · exact le_outer_default_run n ht hj

theorem consensusClosed_default_run (n : Nat) (ht : t.Uniform n)
    (hlast : (t.run false).table.isActiveAt ((t.run false).table.size - 1) = false) :
    Cube.ConsensusClosed (t.run false).table.survivors := by
  have hsettled := (t.reachable_run false).settled n ht
  apply hsettled.consensusClosed (t.run_end false n ht).1
  intro i hactive
  obtain ⟨row, hrow, _⟩ := isActiveAt_iff.mp hactive
  have hlt : i < (t.run false).table.size := lt_size_of_getElem? hrow
  have hne : i ≠ (t.run false).table.size - 1 := by
    rintro rfl
    exact absurd (hactive.symm.trans hlast) (by decide)
  exact le_outer_default_run n ht (by omega)

end Table

/-- After a default run on seeds of one length, the consensus of every two active rows with one conflict is
covered by an active row, unless one of the two is the last row of the table. So if the last row is
cancelled, the survivors are closed under consensus. -/
theorem default_run_leaves_only_last_row (seeds : List Cube) (hne : seeds ≠ []) (n : Nat)
    (hlength : ∀ c ∈ seeds, c.length = n) :
    ∃ t, Table.ofSeeds seeds = .ok t ∧ (t.run false).fault? = none ∧
      (∀ (i j : Nat) (a b : Row),
        (t.run false).table.rows[i]? = some a → (t.run false).table.rows[j]? = some b →
        i + 1 ≠ (t.run false).table.size → j + 1 ≠ (t.run false).table.size →
        a.isActive = true → b.isActive = true → a.cube.conflicts b.cube = 1 →
        ∃ row ∈ (t.run false).table.rows.toList,
          row.isActive = true ∧ row.cube.covers (a.cube.consensus b.cube) = true) ∧
      ((t.run false).table.isActiveAt ((t.run false).table.size - 1) = false →
        Cube.ConsensusClosed (t.run false).table.survivors) := by
  obtain ⟨t, hseeds, hrows⟩ := Table.ofSeeds_spec seeds hne n hlength
  have ht := Table.uniform_of_seedRows hrows n hlength
  refine ⟨t, hseeds, (t.reachable_run false).fault?_eq_none n ht, ?_,
    Table.consensusClosed_default_run n ht⟩
  intro i j a b ha hb hi hj hactivea hactiveb hone
  have hlti : i < (t.run false).table.size := Table.lt_size_of_getElem? ha
  have hltj : j < (t.run false).table.size := Table.lt_size_of_getElem? hb
  obtain ⟨c, hc, hcov⟩ := Table.coveredBy_default_run n ht (by omega) (by omega) ha hb hactivea
    hactiveb hone
  obtain ⟨row, hrow, hactive, rfl⟩ := (Table.mem_survivors _ c).mp hc
  exact ⟨row, hrow, hactive, hcov⟩

/-- The consensus of the first two seeds lies in the third one, which cancels it. It is the last row of the
default run, and the survivors are closed under consensus. -/
theorem default_run_leaves_cancelled_row :
    ∃ t, Table.ofSeeds [⟨[.one, .one, .free]⟩, ⟨[.zero, .free, .one]⟩, ⟨[.free, .one, .one]⟩] =
        .ok t ∧
      (t.run false).table.size = 4 ∧
      (∃ row ∈ (t.run false).table.rows.toList,
        row.isActive = true ∧ row.cube.covers ⟨[.free, .one, .one]⟩ = true) ∧
      Cube.ConsensusClosed (t.run false).table.survivors := by
  obtain ⟨t, ht, _, hpairs, hclosed⟩ := default_run_leaves_only_last_row
    [⟨[.one, .one, .free]⟩, ⟨[.zero, .free, .one]⟩, ⟨[.free, .one, .one]⟩] (by decide) 3 (by decide)
  have hrows : (t.run false).table.rows =
      #[⟨1, ⟨[.one, .one, .free]⟩, [], none⟩, ⟨2, ⟨[.zero, .free, .one]⟩, [], none⟩,
        ⟨3, ⟨[.free, .one, .one]⟩, [], none⟩, ⟨4, ⟨[.free, .one, .one]⟩, [2, 1], some 3⟩] := by
    obtain rfl := Except.ok.inj ht
    exact beq_iff_eq.mp (Run.complete_check 5 (fun r => r.table.rows ==
      #[⟨1, ⟨[.one, .one, .free]⟩, [], none⟩, ⟨2, ⟨[.zero, .free, .one]⟩, [], none⟩,
        ⟨3, ⟨[.free, .one, .one]⟩, [], none⟩, ⟨4, ⟨[.free, .one, .one]⟩, [2, 1], some 3⟩])
      (by decide))
  have hsize : (t.run false).table.size = 4 := by rw [Table.size, hrows]; rfl
  refine ⟨t, ht, hsize, ?_, ?_⟩
  · apply hpairs 0 1 ⟨1, ⟨[.one, .one, .free]⟩, [], none⟩ ⟨2, ⟨[.zero, .free, .one]⟩, [], none⟩
    · rw [hrows]; rfl
    · rw [hrows]; rfl
    · rw [hsize]; decide
    · rw [hsize]; decide
    · decide
    · decide
    · decide
  · apply hclosed
    rw [hsize, Table.isActiveAt, hrows]
    rfl

/-- The last row is left indeed: two opposite points are not combined. -/
example : ((Table.mk #[⟨1, ⟨[.zero]⟩, [], none⟩, ⟨2, ⟨[.one]⟩, [], none⟩]).run false).table.survivors =
    [⟨[.zero]⟩, ⟨[.one]⟩] :=
  beq_iff_eq.mp (Run.complete_check 0 (fun r => r.table.survivors == [⟨[.zero]⟩, ⟨[.one]⟩])
    (by decide))

end CubeCover
