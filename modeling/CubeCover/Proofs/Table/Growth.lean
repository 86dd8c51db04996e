import CubeCover.Proofs.Table.Reachable
import Mathlib.Data.List.Perm.Subperm

/-! How far a run goes, on any table: its rows may have cubes of different lengths, and any marks of
cancellation. The run ends, and an active row that it appends has a cube that nothing active in the
run has covered so far. So the cubes of these rows are all different, and there are no more of them
than cubes of that length. -/
namespace CubeCover

namespace Cube

theorem length_digitLists (n : Nat) : (digitLists n).length = Nat.pow 3 n := by
  induction n with
  | zero => rfl
  | succ n ih =>
    have hthird (digit : Digit) : ((digitLists n).map (digit :: ·)).length = Nat.pow 3 n := by
      rw [List.length_map, ih]
    have hpow : Nat.pow 3 (n + 1) = Nat.pow 3 n * 3 := rfl
    simp only [digitLists, List.flatMap_cons, List.flatMap_nil, List.length_append, hthird,
      List.length_nil]
    omega

theorem length_le_of_nodup {cubes : List Cube} {n : Nat} (hnodup : cubes.Nodup)
    (hlength : ∀ c ∈ cubes, c.length = n) : cubes.length ≤ Nat.pow 3 n := by
  have hsubset : cubes ⊆ (digitLists n).map Cube.mk := by
    intro c hc
    rw [List.mem_map]
    exact ⟨c.digits, hlength c hc ▸ mem_digitLists c.digits, rfl⟩
  have hle := (List.subperm_of_subset hnodup hsubset).length_le
  rw [List.length_map, length_digitLists] at hle
  exact hle

end Cube

namespace Run

variable {t : Table} {exhaustive : Bool} {r r' : Run}

/-- The cube of the active row that the next step appends, if it appends one. -/
def newCube? (r : Run) : Option Cube :=
  r.next?.bind fun r' => (r'.table.rows[r.table.size]?.filter Row.isActive).map Row.cube

/-- The cubes of the active rows that the first steps append. -/
def addedCubes (r : Run) : Nat → List Cube
  | 0 => []
  | k + 1 => r.addedCubes k ++ ((r.after k).bind newCube?).toList

theorem newCube?_of_next? {row? : Option Row} (h : r.next? = some r')
    (hlast : r'.table.rows[r.table.size]? = row?) :
    r.newCube? = (row?.filter Row.isActive).map Row.cube := by
  rw [newCube?, h, Option.bind_some, hlast]

/-- An active row is only appended if no survivor covers its cube. -/
theorem newCube?_cases (hle : r.inner ≤ r.outer) :
    r.newCube? = none ∨ ∃ r' c, r.next? = some r' ∧ r.newCube? = some c ∧
      c ∈ r'.table.survivors ∧ ∀ s ∈ r.table.survivors, s.covers c = false := by
  cases hnext : r.next? with
  | none => exact Or.inl (by rw [newCube?, hnext]; rfl)
  | some r' =>
    have hend : r.table.rows[r.table.size]? = none := Array.getElem?_eq_none (Nat.le_refl _)
    rcases combined_next? hnext hle with hsame | ⟨inner, a, b, _, _, _, hstep⟩
    · have hlast : r'.table.rows[r.table.size]? = none := by
        rw [hsame]
        exact hend
      exact Or.inl (newCube?_of_next? hnext hlast)
    · cases hlast : r'.table.rows[r.table.size]? with
      | none => exact Or.inl (newCube?_of_next? hnext hlast)
      | some row =>
        have hnew := newCube?_of_next? hnext hlast
        cases hstep.rowAfter hlast with
        | kept hold => exact absurd (hend.symm.trans hold) (by simp)
        | cancelled hold => exact absurd (hend.symm.trans hold) (by simp)
        | absorbed => exact Or.inl hnew
        | added _ _ hnone =>
          have hmem := Table.mem_toList_of_getElem? hlast
          refine Or.inr ⟨r', _, rfl, hnew, (Table.mem_survivors _ _).mpr ⟨_, hmem, rfl, rfl⟩, ?_⟩
          intro s hs
          obtain ⟨old, hold, hactive, rfl⟩ := (Table.mem_survivors _ s).mp hs
          exact hnone old hold hactive

theorem reachable_of_after {k : Nat} (h : (start t exhaustive).after k = some r) :
    Reachable t r := by
  induction k generalizing r with
  | zero => exact Option.some.inj h ▸ .start exhaustive
  | succ k ih =>
    obtain ⟨r₀, hr₀, hnext⟩ := (after_succ_eq_some_iff k).mp h
    exact (ih hr₀).next hnext

/-- What the survivors cover stays covered to the end of the run. -/
theorem coveredBy_after {i j : Nat} (hij : i ≤ j) (hi : (start t exhaustive).after i = some r)
    (hj : (start t exhaustive).after j = some r') {d : Cube}
    (hd : Cube.CoveredBy r.table.survivors d) : Cube.CoveredBy r'.table.survivors d := by
  induction hij generalizing r' with
  | refl =>
    obtain rfl := Option.some.inj (hi.symm.trans hj)
    exact hd
  | step _ ih =>
    obtain ⟨r₀, hr₀, hnext⟩ := (after_succ_eq_some_iff _).mp hj
    have hle := (reachable_of_after hr₀).inner_le_outer
    rcases combined_next? hnext hle with hsame | ⟨_, _, _, _, _, _, hstep⟩
    · rw [hsame]
      exact ih hr₀
    · exact hstep.coveredBy (ih hr₀)

/-- The cubes that a run has added are different, of one length, and all covered by now. -/
theorem addedCubes_spec (exhaustive : Bool) (n : Nat) (ht : t.Uniform n) (k : Nat) :
    ((start t exhaustive).addedCubes k).Nodup ∧ ∀ c ∈ (start t exhaustive).addedCubes k,
      c.length = n ∧ ∀ r, (start t exhaustive).after k = some r →
        Cube.CoveredBy r.table.survivors c := by
  induction k with
  | zero => exact ⟨List.nodup_nil, fun c hc => absurd hc (by simp [addedCubes])⟩
  | succ k ih =>
    obtain ⟨hnodup, hadded⟩ := ih
    rw [addedCubes]
    cases hr : (start t exhaustive).after k with
    | none =>
      have hend : (start t exhaustive).after (k + 1) = none := by rw [after, hr]; rfl
      simp only [hend, Option.bind_none, Option.toList_none, List.append_nil]
      exact ⟨hnodup, fun c hc => ⟨(hadded c hc).1, fun r hr => absurd hr (by simp)⟩⟩
    | some r =>
      have hreach := reachable_of_after hr
      -- what was added before is still covered after the step
      have hold : ∀ c ∈ (start t exhaustive).addedCubes k, c.length = n ∧
          ∀ r', (start t exhaustive).after (k + 1) = some r' →
            Cube.CoveredBy r'.table.survivors c := by
        intro c hc
        obtain ⟨hlength, hcovered⟩ := hadded c hc
        exact ⟨hlength, fun r' hr' => coveredBy_after (Nat.le_succ k) hr hr' (hcovered r hr)⟩
      rw [Option.bind_some]
      rcases newCube?_cases hreach.inner_le_outer with hnone | ⟨r', c, hnext, hsome, hmem, hnew⟩
      · rw [hnone, Option.toList_none, List.append_nil]
        exact ⟨hnodup, hold⟩
      · rw [hsome, Option.toList_some]
        constructor
        · refine List.nodup_append.mpr ⟨hnodup, List.pairwise_singleton _ _, ?_⟩
          intro d hd e he heq
          obtain rfl := List.mem_singleton.mp he
          -- a cube that was added before is covered, and the new one was not
          obtain ⟨s, hs, hcov⟩ := (hadded d hd).2 r hr
          rw [heq, hnew s hs] at hcov
          exact absurd hcov (by decide)
        · intro d hd
          rcases List.mem_append.mp hd with hd | hd
          · exact hold d hd
          · obtain rfl := List.mem_singleton.mp hd
            have hlength : d.length = n := by
              obtain ⟨row, hrow, _, rfl⟩ := (Table.mem_survivors _ _).mp hmem
              exact (hreach.next hnext).uniform n ht row hrow
            refine ⟨hlength, fun r₂ hr₂ => ?_⟩
            have hsame := ((after_succ_eq_some_iff k).mpr ⟨r, hr, hnext⟩).symm.trans hr₂
            exact Option.some.inj hsame ▸ ⟨d, hmem, Cube.covers_refl d⟩

end Run

/-- On any table a run ends after finitely many steps, with a mismatch of lengths or since no outer
row is left. A row that it appends as an active one has a cube that no row active at that time or
earlier in the run covers. If all cubes have one length, the number of these rows is limited. -/
theorem run_ends_and_adds_uncovered_cubes (t : Table) (exhaustive : Bool) :
    (∃ k, (Run.start t exhaustive).after k = some (t.run exhaustive) ∧
      (Run.start t exhaustive).after (k + 1) = none) ∧
    ((∃ e, (t.run exhaustive).fault? = some e) ∨
      ((t.run exhaustive).inner = 0 ∧ (t.run exhaustive).table.size ≤
        (t.run exhaustive).outer + 1 + (t.run exhaustive).tail)) ∧
    (∀ (i j : Nat) (r₀ r : Run) (c : Cube), i ≤ j →
      (Run.start t exhaustive).after i = some r₀ → (Run.start t exhaustive).after j = some r →
      r.newCube? = some c →
      ∀ row ∈ r₀.table.rows.toList, row.isActive = true → row.cube.covers c = false) ∧
    ∀ n, t.Uniform n → ∀ k, ((Run.start t exhaustive).addedCubes k).length ≤ Nat.pow 3 n := by
  have hend : (t.run exhaustive).next? = none :=
    (Run.Reachable.start (t := t) exhaustive).complete.2
  refine ⟨?_, ?_, ?_, ?_⟩
  · obtain ⟨k, hk⟩ := (Run.start t exhaustive).exists_after_complete
    refine ⟨k, hk, ?_⟩
    rw [Run.after, hk]
    exact hend
  · cases hfault : (t.run exhaustive).fault? with
    | some e => exact Or.inl ⟨e, rfl⟩
    | none => exact Or.inr (Run.next?_eq_none hfault hend)
  · intro i j r₀ r c hij hi hj hnew row hrow hactive
    -- otherwise the new cube would still be covered just before its row is appended
    by_contra hcov
    rw [Bool.not_eq_false] at hcov
    have hcovered : Cube.CoveredBy r₀.table.survivors c :=
      ⟨row.cube, (Table.mem_survivors _ _).mpr ⟨row, hrow, hactive, rfl⟩, hcov⟩
    obtain ⟨s, hs, hscov⟩ := Run.coveredBy_after hij hi hj hcovered
    have hle := (Run.reachable_of_after hj).inner_le_outer
    rcases Run.newCube?_cases hle with hnone | ⟨_, d, _, hsome, _, huncovered⟩
    · exact absurd (hnew.symm.trans hnone) (by simp)
    · obtain rfl := Option.some.inj (hnew.symm.trans hsome)
      exact absurd (hscov.symm.trans (huncovered s hs)) (by decide)
  · intro n ht k
    obtain ⟨hnodup, hadded⟩ := Run.addedCubes_spec exhaustive n ht k
    exact Cube.length_le_of_nodup hnodup fun c hc => (hadded c hc).1

/-- The two points of a line and a row with a mark of cancellation that names no row: one active row
is appended, at most three could be. -/
theorem run_ends_with_odd_marks :
    let t : Table := ⟨#[⟨1, ⟨[.zero]⟩, [], none⟩, ⟨7, ⟨[.one]⟩, [4], some 0⟩,
      ⟨3, ⟨[.one]⟩, [], none⟩]⟩
    (∃ k, (Run.start t true).after k = some (t.run true)) ∧
      (Run.start t true).addedCubes 9 = [⟨[.free]⟩] ∧
      ((Run.start t true).addedCubes 9).length ≤ Nat.pow 3 1 := by
  intro t
  obtain ⟨⟨k, hk, _⟩, _, _, hadded⟩ := run_ends_and_adds_uncovered_cubes t true
  have huniform : t.Uniform 1 := by
    intro row hrow
    have hall : ∀ row ∈ t.rows.toList, row.cube.length = 1 := by decide
    exact hall row hrow
  exact ⟨⟨k, hk⟩, by decide, hadded 1 huniform 9⟩

end CubeCover
