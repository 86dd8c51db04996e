import CubeCover.Proofs.Table.Reachable

/-! What a run leaves behind it. Every two rows that have had their turn together and are still
active have a survivor over their consensus; a row that is cancelled in the meantime asks for
nothing. At the end of an exhaustive run that is all pairs of rows. -/
namespace CubeCover

namespace Run

/-- The pairs of rows that a run has gone through are settled. -/
structure Settled (r : Run) : Prop where
  /-- As long as inner rows are left, the outer row is in the table. -/
  within : r.inner = 0 ∨ r.outer < r.table.rows.size
  settled : ∀ (i j : Nat) (a b : Row), i < j → j < r.outer ∨ (j = r.outer ∧ r.inner ≤ i) →
    r.table.rows[i]? = some a → r.table.rows[j]? = some b → a.isActive = true → b.isActive = true →
    a.cube.conflicts b.cube = 1 → Cube.CoveredBy r.table.survivors (a.cube.consensus b.cube)

namespace Settled

variable {r r' : Run}

theorem start (t : Table) (exhaustive : Bool) : (Run.start t exhaustive).Settled := by
  refine ⟨Or.inl rfl, ?_⟩
  intro i j a b hij hturn
  have houter : (Run.start t exhaustive).outer = 0 := rfl
  omega

theorem next (h : r.Settled) (n : Nat) (huniform : r.table.Uniform n)
    (hwithin : r'.inner = 0 ∨ r'.outer < r'.table.size) (hnext : r.next? = some r') :
    r'.Settled := by
  refine ⟨hwithin, ?_⟩
  intro i j a' b' hij hpassed ha' hb' hactivea hactiveb hone
  rcases turn_cases hnext with ⟨hsame, hback⟩ | ⟨inner, hinner, hactive, houter, hinner', htable⟩
  · rw [hsame] at ha' hb' ⊢
    have hati : r.table.isActiveAt i = true := (Table.isActiveAt_of_getElem? ha').trans hactivea
    have hatj : r.table.isActiveAt j = true := (Table.isActiveAt_of_getElem? hb').trans hactiveb
    exact h.settled i j a' b' hij (hback i j hij hati hatj hpassed) ha' hb' hactivea hactiveb hone
  · -- the rows that are combined are both in the table
    obtain ⟨c, hc, _⟩ := (Option.any_eq_true _ _).mp hactive
    have hlt : r.outer < r.table.rows.size := h.within.resolve_left (by omega)
    obtain ⟨d, hd⟩ : ∃ d, r.table.rows[r.outer]? = some d := ⟨_, Array.getElem?_eq_getElem hlt⟩
    have hstep := (Table.combine_spec n huniform hc hd).2
    rw [htable] at ha' hb' ⊢
    rw [houter, hinner'] at hpassed
    -- both rows stood at their places before the step, and they were active
    obtain ⟨a, ha, hcubea, hbeforea⟩ := hstep.getElem?_cases (by omega) ha'
    obtain ⟨b, hb, hcubeb, hbeforeb⟩ := hstep.getElem?_cases (by omega) hb'
    rw [← hcubea, ← hcubeb] at hone ⊢
    by_cases hnow : i = inner ∧ j = r.outer
    · -- this is the pair that has just been combined
      obtain ⟨rfl, rfl⟩ := hnow
      obtain rfl := Option.some.inj (ha.symm.trans hc)
      obtain rfl := Option.some.inj (hb.symm.trans hd)
      exact hstep.coveredBy_consensus hone
    · exact hstep.coveredBy (h.settled i j a b hij (by omega) ha hb (hbeforea hactivea)
        (hbeforeb hactiveb) hone)

/-- Once no inner row is left, the rows up to the outer one are settled with one another. -/
theorem coveredBy_consensus (h : r.Settled) (hinner : r.inner = 0) {i j : Nat} {a b : Row}
    (hi : i ≤ r.outer) (hj : j ≤ r.outer) (ha : r.table.rows[i]? = some a)
    (hb : r.table.rows[j]? = some b) (hactivea : a.isActive = true) (hactiveb : b.isActive = true)
    (hone : a.cube.conflicts b.cube = 1) :
    Cube.CoveredBy r.table.survivors (a.cube.consensus b.cube) := by
  -- pairs are settled with the lower place first, and the consensus does not see their order
  rcases Nat.lt_trichotomy i j with hij | hij | hij
  · exact h.settled i j a b hij (by omega) ha hb hactivea hactiveb hone
  · have hab : a = b := Option.some.inj (ha.symm.trans (hij ▸ hb))
    rw [hab, Cube.conflicts_self] at hone
    exact absurd hone (by decide)
  · rw [Cube.consensus_comm]
    rw [Cube.conflicts_comm] at hone
    exact h.settled j i b a hij (by omega) hb ha hactiveb hactivea hone

/-- Once all active rows have had their turn and no inner row is left, all survivors are settled. -/
theorem consensusClosed (h : r.Settled) (hinner : r.inner = 0)
    (hplace : ∀ i, r.table.isActiveAt i = true → i ≤ r.outer) :
    Cube.ConsensusClosed r.table.survivors := by
  intro c hc d hd hone
  obtain ⟨a, hmema, hactivea, rfl⟩ := (Table.mem_survivors _ c).mp hc
  obtain ⟨b, hmemb, hactiveb, rfl⟩ := (Table.mem_survivors _ d).mp hd
  obtain ⟨i, hi⟩ := Array.getElem?_of_mem (Array.mem_toList_iff.mp hmema)
  obtain ⟨j, hj⟩ := Array.getElem?_of_mem (Array.mem_toList_iff.mp hmemb)
  have hplacei := hplace i ((Table.isActiveAt_of_getElem? hi).trans hactivea)
  have hplacej := hplace j ((Table.isActiveAt_of_getElem? hj).trans hactiveb)
  exact h.coveredBy_consensus hinner hplacei hplacej hi hj hactivea hactiveb hone

end Settled

theorem Reachable.settled {t : Table} {r : Run} (n : Nat) (ht : t.Uniform n)
    (hr : Reachable t r) : r.Settled := by
  induction hr with
  | start exhaustive => exact Settled.start t exhaustive
  | next hr hnext ih => exact ih.next n (hr.uniform n ht) (hr.next hnext).outer_lt_size hnext
  | @again r exhaustive hr hend ih => exact Settled.start r.table exhaustive

end Run

/-- At the end of a run all rows have had their turn as the outer row, but for the last row of a default
run. -/
theorem Table.run_end (t : Table) (exhaustive : Bool) (n : Nat) (ht : t.Uniform n) :
    (t.run exhaustive).inner = 0 ∧
      (t.run exhaustive).table.size ≤
        (t.run exhaustive).outer + 1 + if exhaustive = true then 0 else 1 := by
  have hrun := (Run.Reachable.start (t := t) exhaustive).complete
  have hend := Run.next?_eq_none (hrun.1.fault?_eq_none n ht) hrun.2
  have hmode : (t.run exhaustive).exhaustive = exhaustive :=
    (Run.complete_induction (P := fun r => r.exhaustive = exhaustive)
      (fun r r' h hr => (Run.exhaustive_next? h).trans hr) (Run.start t exhaustive) rfl).1
  have hsize : (t.run exhaustive).table.size ≤
      (t.run exhaustive).outer + 1 + (t.run exhaustive).tail := hend.2
  rw [Run.tail, hmode] at hsize
  exact ⟨hend.1, hsize⟩

/-- At the end of an exhaustive run, the survivors are closed under consensus. -/
theorem Table.consensusClosed_run (t : Table) (n : Nat) (ht : t.Uniform n) :
    Cube.ConsensusClosed (t.run true).table.survivors := by
  obtain ⟨hinner, hsize⟩ := t.run_end true n ht
  apply ((t.reachable_run true).settled n ht).consensusClosed hinner
  intro i hi
  obtain ⟨row, hrow, _⟩ := Table.isActiveAt_iff.mp hi
  have hlt : i < (t.run true).table.size := Table.lt_size_of_getElem? hrow
  exact Nat.le_of_lt_succ (Nat.lt_of_lt_of_le hlt hsize)

end CubeCover
