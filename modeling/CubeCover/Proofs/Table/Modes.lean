import CubeCover.Proofs.Table.Cancellers

/-! The default run is the first part of the exhaustive run. Both take the same steps for as long as
the default run goes on. What the exhaustive run does after that appends rows and cancels rows, and
the cancellers are the rows that it has appended by itself. -/
namespace CubeCover

namespace Table

/-- The rows of `t` stand in `t'`, and those that have been cancelled in the meantime name rows that
`t` does not have. -/
structure ExtendedBy (t t' : Table) : Prop where
  size_le : t.size ≤ t'.size
  kept : ∀ (i : Nat) (old : Row), t.rows[i]? = some old →
    ∃ row, t'.rows[i]? = some row ∧ old.Kept row ∧
      (row.cancelledBy = old.cancelledBy ∨ ∃ k, row.cancelledBy = some k ∧ (t.size : Int) < k)

variable {t t' t'' : Table}

theorem ExtendedBy.refl (t : Table) : t.ExtendedBy t :=
  ⟨Nat.le_refl _, fun _ old hold => ⟨old, hold, old.kept_refl, Or.inl rfl⟩⟩

theorem ExtendedBy.combined {outer inner : Nat} {a b : Row} (h : t.ExtendedBy t')
    (hstep : Combined t' outer inner a b t'') : t.ExtendedBy t'' := by
  refine ⟨Nat.le_trans h.size_le hstep.size_le, ?_⟩
  intro i old hold
  obtain ⟨row, hrow, hkept, hmark⟩ := h.kept i old hold
  obtain ⟨row', hrow', hkept'⟩ := hstep.getElem?_kept hrow
  refine ⟨row', hrow', hkept.trans hkept', ?_⟩
  have hi : i < t'.size := lt_size_of_getElem? hrow
  cases hstep.rowAfter hrow' with
  | kept hsame =>
    obtain rfl := Option.some.inj (hrow.symm.trans hsame)
    exact hmark
  | cancelled =>
    -- the canceller is the row after all rows of `t'`, and `t` has no more of them
    refine Or.inr ⟨t'.nextNumber, rfl, ?_⟩
    have hsize := h.size_le
    simp only [nextNumber, Int.ofNat_eq_natCast]
    omega
  | added hend => exact absurd hend (Nat.ne_of_lt hi)
  | absorbed hend => exact absurd hend (Nat.ne_of_lt hi)

end Table

namespace Run

variable {r r' : Run}

/-- The same state of an exhaustive run. -/
def exhausting (r : Run) : Run := { r with exhaustive := true }

theorem nextOuter?_exhausting (h : r.nextOuter? = some r') :
    r.exhausting.nextOuter? = some r'.exhausting := by
  unfold nextOuter? at h ⊢
  simp only at h ⊢
  split at h
  · rename_i hsize
    obtain rfl := Option.some.inj h
    -- the exhaustive run goes on further than the default one
    have htail : r.exhausting.tail = 0 := rfl
    have hmore : r.exhausting.outer + 1 + r.exhausting.tail < r.exhausting.table.size := by
      rw [htail]
      exact Nat.lt_of_le_of_lt (Nat.le_add_right _ _) hsize
    rw [if_pos hmore]
    rfl
  · exact absurd h (by simp)

theorem visit_exhausting (r : Run) (inner : Nat) :
    r.exhausting.visit inner = (r.visit inner).exhausting := by
  unfold visit
  have hsame : r.exhausting.table = r.table := rfl
  rw [hsame]
  split <;> rfl

theorem next?_exhausting (h : r.next? = some r') :
    r.exhausting.next? = some r'.exhausting := by
  have hfault : r.exhausting.fault? = r.fault? := rfl
  have hinner : r.exhausting.inner = r.inner := rfl
  unfold next? at h ⊢
  rw [hfault, hinner]
  split at h
  · exact absurd h (by simp)
  · split at h
    · exact nextOuter?_exhausting h
    · rw [visit_exhausting]
      exact congrArg (Option.map exhausting) h

theorem after_exhausting {k : Nat} (h : r.after k = some r') :
    r.exhausting.after k = some r'.exhausting := by
  induction k generalizing r' with
  | zero => exact congrArg (Option.map exhausting) h
  | succ k ih =>
    obtain ⟨r₀, hr₀, hnext⟩ := (after_succ_eq_some_iff k).mp h
    exact (after_succ_eq_some_iff k).mpr ⟨r₀.exhausting, ih hr₀, next?_exhausting hnext⟩

/-- The exhaustive run passes through the end of the default run. -/
theorem run_true_eq (t : Table) : t.run true = (t.run false).exhausting.complete := by
  obtain ⟨k, hk⟩ := (start t false).exists_after_complete
  calc t.run true
      = (start t false).exhausting.complete := rfl
    _ = (t.run false).exhausting.complete := complete_after (after_exhausting hk)

theorem extendedBy_complete (hle : r.inner ≤ r.outer) : r.table.ExtendedBy r.complete.table := by
  apply And.right
  apply (complete_induction
    (P := fun r' => r'.inner ≤ r'.outer ∧ r.table.ExtendedBy r'.table) ?_ r
    ⟨hle, .refl r.table⟩).1
  intro r₁ r₂ hnext h
  refine ⟨inner_le_outer_next? hnext h.1, ?_⟩
  rcases combined_next? hnext h.1 with hsame | ⟨_, _, _, _, _, _, hstep⟩
  · rw [hsame]
    exact h.2
  · exact h.2.combined hstep

end Run

theorem Table.extendedBy_run (t : Table) :
    (t.run false).table.ExtendedBy (t.run true).table := by
  have hle := (t.reachable_run false).inner_le_outer
  rw [Run.run_true_eq]
  exact Run.extendedBy_complete (r := (t.run false).exhausting) hle

/-- The table of the default run is the front of the table of the exhaustive run on the same seeds: the
rows have the same numbers, cubes and parents, and the same cancellers. A row that is only cancelled
in the exhaustive run is cancelled by a row that the default run does not have. -/
theorem default_run_is_front_of_exhaustive_run (seeds : List Cube) (hne : seeds ≠ []) (n : Nat)
    (hlength : ∀ c ∈ seeds, c.length = n) :
    ∃ t, Table.ofSeeds seeds = .ok t ∧
      (t.run false).fault? = none ∧ (t.run true).fault? = none ∧
      (t.run false).table.size ≤ (t.run true).table.size ∧
      ∀ (i : Nat) (d : Row), (t.run false).table.rows[i]? = some d →
        ∃ e, (t.run true).table.rows[i]? = some e ∧
          e.number = d.number ∧ e.cube = d.cube ∧ e.formedBy = d.formedBy ∧
          (∀ k, d.cancelledBy = some k → e.cancelledBy = some k) ∧
          (d.isActive = true → e.isActive = true ∨
            ∃ (j : Nat) (canceller : Row), (t.run true).table.rows[j]? = some canceller ∧
              e.cancelledBy = some canceller.number ∧
              ((t.run false).table.size : Int) < canceller.number) := by
  obtain ⟨t, hseeds, hrows⟩ := Table.ofSeeds_spec seeds hne n hlength
  have ht := Table.uniform_of_seedRows hrows n hlength
  have hend := t.reachable_run
  have hext := t.extendedBy_run
  refine ⟨t, hseeds, (hend false).fault?_eq_none n ht, (hend true).fault?_eq_none n ht,
    hext.size_le, ?_⟩
  intro i d hd
  obtain ⟨e, he, hkept, hmark⟩ := hext.kept i d hd
  refine ⟨e, he, hkept.number, hkept.cube, hkept.formedBy, hkept.cancelledBy, ?_⟩
  intro hactive
  rcases hmark with hsame | ⟨k, hk, hlate⟩
  · left
    rw [Row.isActive, hsame]
    exact hactive
  · right
    -- the canceller of a row stands in the table, at the place that its number tells
    have hder := Table.Derivation.of_seedRows hrows
    have hacc := (Table.Accounted.of_seedRows hrows).of_reachable hder (hend true)
    obtain ⟨j, canceller, hnumber, _, hcanceller, _⟩ := hacc.named i e k he hk
    have hsame : canceller.number = k :=
      ((hder.of_reachable (hend true)).numbered j canceller hcanceller).trans hnumber.symm
    exact ⟨j, canceller, hcanceller, hsame.symm ▸ hk, hsame.symm ▸ hlate⟩

/-- The default run on three points of a square ends at once, with three active rows. In the exhaustive
run the first of them is cancelled by a row that comes later. -/
theorem default_run_on_three_points_is_front :
    ∃ t, Table.ofSeeds [⟨[.one, .zero]⟩, ⟨[.zero, .one]⟩, ⟨[.one, .one]⟩] = .ok t ∧
      (t.run false).table.size = 3 ∧ (t.run true).table.isActiveAt 0 = false ∧
      ∃ d e, (t.run false).table.rows[0]? = some d ∧ d.isActive = true ∧
        (t.run true).table.rows[0]? = some e ∧ e.cube = d.cube ∧
        ∃ (j : Nat) (canceller : Row), (t.run true).table.rows[j]? = some canceller ∧
          e.cancelledBy = some canceller.number ∧ 3 < canceller.number := by
  obtain ⟨t, ht, _, _, _, h⟩ := default_run_is_front_of_exhaustive_run
    [⟨[.one, .zero]⟩, ⟨[.zero, .one]⟩, ⟨[.one, .one]⟩] (by decide) 2 (by decide)
  have hsize : (t.run false).table.size = 3 := by
    obtain rfl := Except.ok.inj ht
    exact beq_iff_eq.mp (Run.complete_check 2 (fun r => r.table.size == 3) (by decide))
  have hfirst : (t.run false).table.rows[0]? = some ⟨1, ⟨[.one, .zero]⟩, [], none⟩ := by
    obtain rfl := Except.ok.inj ht
    exact beq_iff_eq.mp (Run.complete_check 2
      (fun r => r.table.rows[0]? == some ⟨1, ⟨[.one, .zero]⟩, [], none⟩) (by decide))
  have hcancelled : (t.run true).table.isActiveAt 0 = false := by
    obtain rfl := Except.ok.inj ht
    exact beq_iff_eq.mp (Run.complete_check 14
      (fun r => r.table.isActiveAt 0 == false) (by decide))
  obtain ⟨e, he, _, hcube, _, _, hcases⟩ := h 0 _ hfirst
  refine ⟨t, ht, hsize, hcancelled, _, e, hfirst, rfl, he, hcube, ?_⟩
  rcases hcases rfl with hactive | ⟨j, canceller, hcanceller, hk, hlate⟩
  · exact absurd (Table.isActiveAt_iff.mpr ⟨e, he, hactive⟩) (by rw [hcancelled]; decide)
  · rw [hsize] at hlate
    exact ⟨j, canceller, hcanceller, hk, hlate⟩

end CubeCover
