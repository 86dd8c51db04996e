import CubeCover.Proofs.Table.Derivation
import Mathlib.Logic.Relation

/-! Why rows are cancelled. A canceller stands in the table and covers the row that names it, and from
any row the cancellers lead to an active row. They go to earlier and to later rows, so that no order of
the places shows this. What does is that a canceller is active at the time: a chain that ended in an
active row ends in one again after every step. -/
namespace CubeCover

namespace Table

/-- The place of the row that the row at a place names as its canceller. -/
def canceller? (t : Table) (i : Nat) : Option Nat :=
  (t.rows[i]?.bind Row.cancelledBy).bind fun number => t.place? (number - 1)

/-- The row at the first place names the row at the second one as its canceller. -/
def CancelledBy (t : Table) (i j : Nat) : Prop := t.canceller? i = some j

/-- Every canceller is another row, over the row that it cancels, and all chains of cancellers end in
active rows. -/
structure Accounted (t : Table) : Prop where
  named : ∀ (i : Nat) (row : Row) (k : Int), t.rows[i]? = some row → row.cancelledBy = some k →
    ∃ j other, k = Int.ofNat (j + 1) ∧ j ≠ i ∧ t.rows[j]? = some other ∧
      other.cube.covers row.cube = true
  ends : ∀ i < t.size, ∃ j, Relation.ReflTransGen t.CancelledBy i j ∧ t.isActiveAt j = true

variable {t t' : Table} {i j : Nat}

theorem cancelledBy_of_number {row : Row} (hrow : t.rows[i]? = some row)
    (hnumber : row.cancelledBy = some (Int.ofNat (j + 1))) (hj : j < t.size) :
    t.CancelledBy i j := by
  rw [CancelledBy, canceller?, hrow, Option.bind_some, hnumber, Option.bind_some,
    place?_pred_succ, if_pos hj]

theorem not_cancelledBy_of_active (hactive : t.isActiveAt i = true) : ¬ t.CancelledBy i j := by
  obtain ⟨row, hrow, hrowactive⟩ := isActiveAt_iff.mp hactive
  have hnone : row.cancelledBy = none := Option.isNone_iff_eq_none.mp hrowactive
  rw [CancelledBy, canceller?, hrow, Option.bind_some, hnone]
  simp

namespace Accounted

theorem number_of_cancelledBy (h : t.Accounted) (hij : t.CancelledBy i j) :
    ∃ row other, t.rows[i]? = some row ∧ row.cancelledBy = some (Int.ofNat (j + 1)) ∧
      t.rows[j]? = some other ∧ other.cube.covers row.cube = true := by
  obtain ⟨k, hk, hplace⟩ := Option.bind_eq_some_iff.mp hij
  obtain ⟨row, hrow, hnumber⟩ := Option.bind_eq_some_iff.mp hk
  obtain ⟨l, other, rfl, _, hother, hcov⟩ := h.named i row k hrow hnumber
  have hl : l < t.size := lt_size_of_getElem? hother
  rw [place?_pred_succ, if_pos hl] at hplace
  obtain rfl := Option.some.inj hplace
  exact ⟨row, other, hrow, hnumber, hother, hcov⟩

/-- Wherever the cancellers lead, they lead to larger cubes. -/
theorem covers_of_chain (h : t.Accounted) (hij : Relation.ReflTransGen t.CancelledBy i j) {row last : Row}
    (hrow : t.rows[i]? = some row) (hlast : t.rows[j]? = some last) :
    last.cube.covers row.cube = true := by
  induction hij generalizing last with
  | refl =>
    obtain rfl := Option.some.inj (hrow.symm.trans hlast)
    exact Cube.covers_refl row.cube
  | tail _ hstep ih =>
    obtain ⟨middle, other, hmiddle, _, hother, hcov⟩ := h.number_of_cancelledBy hstep
    obtain rfl := Option.some.inj (hother.symm.trans hlast)
    exact Cube.covers_trans _ _ _ hcov (ih hmiddle)

/-- No chain of cancellers comes back to its start: from every place on it the same active row is
ahead. -/
theorem not_loop (h : t.Accounted) : ¬ Relation.TransGen t.CancelledBy i i := by
  intro hloop
  obtain ⟨m, hm, hback⟩ := Relation.TransGen.head'_iff.mp hloop
  obtain ⟨row, _, hrow, _⟩ := h.number_of_cancelledBy hm
  obtain ⟨j, hchain, hactive⟩ := h.ends i (lt_size_of_getElem? hrow)
  clear hm hback hrow
  induction hchain using Relation.ReflTransGen.head_induction_on with
  | refl =>
    obtain ⟨m, hm, _⟩ := Relation.TransGen.head'_iff.mp hloop
    exact not_cancelledBy_of_active hactive hm
  | head hstep _ ih =>
    obtain ⟨m, hm, hback⟩ := Relation.TransGen.head'_iff.mp hloop
    -- a row has one canceller, so the loop goes on where the chain does
    obtain rfl := Option.some.inj (hm.symm.trans hstep)
    exact ih (Relation.TransGen.tail' hback hm)

section combined

variable {outer inner : Nat} {a b : Row}

/-- References stay, since rows keep their places and cancelled rows their cancellers. -/
theorem cancelledBy_of_combined (h : t.Accounted) (hstep : Combined t outer inner a b t')
    (hij : t.CancelledBy i j) : t'.CancelledBy i j := by
  obtain ⟨row, other, hrow, hnumber, hother, _⟩ := h.number_of_cancelledBy hij
  obtain ⟨row', hrow', hkept⟩ := hstep.getElem?_kept hrow
  have hj : j < t'.size := Nat.lt_of_lt_of_le (lt_size_of_getElem? hother) hstep.size_le
  exact cancelledBy_of_number hrow' (hkept.cancelledBy _ hnumber) hj

theorem ends_of_combined (h : t.Accounted) (hstep : Combined t outer inner a b t')
    (hi : i < t.size) : ∃ j, Relation.ReflTransGen t'.CancelledBy i j ∧ t'.isActiveAt j = true := by
  obtain ⟨j, hchain, hactive⟩ := h.ends i hi
  obtain ⟨old, hold, hactive⟩ := isActiveAt_iff.mp hactive
  have hj : j < t.size := lt_size_of_getElem? hold
  obtain ⟨row, hrow, _⟩ := hstep.getElem?_kept hold
  have hchain' : Relation.ReflTransGen t'.CancelledBy i j :=
    Relation.ReflTransGen.mono (fun _ _ => h.cancelledBy_of_combined hstep) _ _ hchain
  cases hstep.rowAfter hrow with
  | kept hsame =>
    obtain rfl := Option.some.inj (hold.symm.trans hsame)
    exact ⟨j, hchain', isActiveAt_iff.mpr ⟨old, hrow, hactive⟩⟩
  | cancelled _ _ _ hnew =>
    -- the end of the chain has just been cancelled, by the row that is new and active
    have hlast : t.size < t'.size := lt_size_of_getElem? hnew
    exact ⟨t.size, hchain'.tail (cancelledBy_of_number hrow rfl hlast),
      isActiveAt_iff.mpr ⟨_, hnew, rfl⟩⟩
  | added hlast => exact absurd hlast (Nat.ne_of_lt hj)
  | absorbed hlast => exact absurd hlast (Nat.ne_of_lt hj)

theorem combined (h : t.Accounted) {seeds : List Cube} (hder : t.Derivation seeds)
    (hstep : Combined t outer inner a b t') : t'.Accounted := by
  refine ⟨?_, ?_⟩
  · intro i row k hrow hk
    cases hstep.rowAfter hrow with
    | kept hold =>
      obtain ⟨j, other, hnumber, hne, hother, hcov⟩ := h.named i row k hold hk
      obtain ⟨other', hother', hkept⟩ := hstep.getElem?_kept hother
      exact ⟨j, other', hnumber, hne, hother', hkept.cube ▸ hcov⟩
    | cancelled hold _ hcov hnew =>
      have hi : i < t.size := lt_size_of_getElem? hold
      exact ⟨t.size, _, (Option.some.inj hk).symm, Nat.ne_of_gt hi, hnew, hcov⟩
    | added => exact absurd hk (by simp [consensusRow])
    | absorbed hi _ j hfirst _ hcov hstays =>
      have hj : j < t.size := lt_size_of_getElem? hfirst
      refine ⟨j, _, (Option.some.inj hk).symm.trans (hder.numbered j _ hfirst), ?_, hstays, hcov⟩
      omega
  · intro i hi
    obtain ⟨row, hrow⟩ : ∃ row, t'.rows[i]? = some row := ⟨_, Array.getElem?_eq_getElem hi⟩
    cases hstep.rowAfter hrow with
    | kept hold => exact h.ends_of_combined hstep (lt_size_of_getElem? hold)
    | cancelled hold => exact h.ends_of_combined hstep (lt_size_of_getElem? hold)
    | added => exact ⟨i, .refl, isActiveAt_iff.mpr ⟨_, hrow, rfl⟩⟩
    | absorbed _ _ j hfirst hactive _ hstays =>
      have hj : j < t'.size := lt_size_of_getElem? hstays
      have hnumber := hder.numbered j _ hfirst
      refine ⟨j, .single (cancelledBy_of_number hrow ?_ hj), isActiveAt_iff.mpr ⟨_, hstays, hactive⟩⟩
      rw [consensusRow, hnumber]

end combined

theorem of_seedRows {seeds : List Cube} (h : t.rows.toList = (seeds.zipIdx 1).map seedRow) :
    t.Accounted := by
  -- seeds are active, so there is nothing to account for
  have hseed (i : Nat) (row : Row) (hrow : t.rows[i]? = some row) : row.cancelledBy = none :=
    (of_mem_seedRows h (mem_toList_of_getElem? hrow)).2.2
  refine ⟨?_, ?_⟩
  · intro i row k hrow hk
    rw [hseed i row hrow] at hk
    exact absurd hk (by simp)
  · intro i hi
    have hrow := Array.getElem?_eq_getElem hi
    refine ⟨i, .refl, isActiveAt_iff.mpr ⟨_, hrow, ?_⟩⟩
    rw [Row.isActive, hseed i _ hrow]
    rfl

theorem of_reachable {seeds : List Cube} {r : Run} (h : t.Accounted) (hder : t.Derivation seeds)
    (hr : Run.Reachable t r) : r.table.Accounted := by
  apply And.right
  apply hr.table_induction (P := fun t => t.Derivation seeds ∧ t.Accounted) ⟨hder, h⟩
  intro t t' outer inner a b hlt ha hb hstep ht
  exact ⟨ht.1.combined hlt ha hb hstep, ht.2.combined ht.1 hstep⟩

end Accounted

end Table

/-- In every state of any number of runs, a canceller is the number of another row of the table, over
the row that it cancels. Going from canceller to canceller never comes back to a row, and from any row
it ends in a survivor over that row. -/
theorem cancellers_lead_to_survivors (seeds : List Cube) (hne : seeds ≠ []) (n : Nat)
    (hlength : ∀ c ∈ seeds, c.length = n) :
    ∃ t, Table.ofSeeds seeds = .ok t ∧ ∀ r, Run.Reachable t r →
      (∀ (i : Nat) (row : Row) (k : Int), r.table.rows[i]? = some row → row.cancelledBy = some k →
        ∃ j other, r.table.CancelledBy i j ∧ j ≠ i ∧ r.table.rows[j]? = some other ∧
          other.number = k ∧ other.cube.covers row.cube = true) ∧
      (∀ i, ¬ Relation.TransGen r.table.CancelledBy i i) ∧
      ∀ (i : Nat) (row : Row), r.table.rows[i]? = some row →
        ∃ j last, Relation.ReflTransGen r.table.CancelledBy i j ∧ r.table.rows[j]? = some last ∧
          last.isActive = true ∧ last.cube.covers row.cube = true := by
  obtain ⟨t, hseeds, hrows⟩ := Table.ofSeeds_spec seeds hne n hlength
  refine ⟨t, hseeds, ?_⟩
  intro r hr
  have hder := Table.Derivation.of_seedRows hrows
  have h := (Table.Accounted.of_seedRows hrows).of_reachable hder hr
  refine ⟨?_, fun i => h.not_loop, ?_⟩
  · intro i row k hrow hk
    obtain ⟨j, other, hnumber, hne, hother, hcov⟩ := h.named i row k hrow hk
    have hj : j < r.table.size := (Array.getElem?_eq_some_iff.mp hother).1
    refine ⟨j, other, Table.cancelledBy_of_number hrow (hnumber ▸ hk) hj, hne, hother, ?_, hcov⟩
    exact ((hder.of_reachable hr).numbered j other hother).trans hnumber.symm
  · intro i row hrow
    obtain ⟨j, hchain, hactive⟩ := h.ends i (Array.getElem?_eq_some_iff.mp hrow).1
    obtain ⟨last, hlast, hlastactive⟩ := Table.isActiveAt_iff.mp hactive
    exact ⟨j, last, hchain, hlast, hlastactive, h.covers_of_chain hchain hrow hlast⟩

/-- In an exhaustive run on three points of a square, the third point is cancelled by the first row
that is appended, and a survivor lies over it. -/
theorem cancellers_lead_to_survivors_of_three_points :
    ∃ t, Table.ofSeeds [⟨[.one, .zero]⟩, ⟨[.zero, .one]⟩, ⟨[.one, .one]⟩] = .ok t ∧
      (t.run true).table.CancelledBy 2 3 ∧
      (∀ i, ¬ Relation.TransGen (t.run true).table.CancelledBy i i) ∧
      ∃ row j last, (t.run true).table.rows[2]? = some row ∧
        Relation.ReflTransGen (t.run true).table.CancelledBy 2 j ∧
        (t.run true).table.rows[j]? = some last ∧ last.isActive = true ∧
        last.cube.covers row.cube = true := by
  obtain ⟨t, ht, h⟩ := cancellers_lead_to_survivors
    [⟨[.one, .zero]⟩, ⟨[.zero, .one]⟩, ⟨[.one, .one]⟩] (by decide) 2 (by decide)
  obtain ⟨_, hloop, hend⟩ := h (t.run true) (Run.Reachable.start true).complete.1
  have hthird : (t.run true).table.canceller? 2 = some 3 := by
    obtain rfl := Except.ok.inj ht
    exact beq_iff_eq.mp (Run.complete_check 14 (fun r => r.table.canceller? 2 == some 3) (by decide))
  obtain ⟨_, hnumber, _⟩ := Option.bind_eq_some_iff.mp hthird
  obtain ⟨row, hrow, _⟩ := Option.bind_eq_some_iff.mp hnumber
  obtain ⟨j, last, hlast⟩ := hend 2 row hrow
  exact ⟨t, ht, hthird, hloop, row, j, last, hrow, hlast⟩

end CubeCover
