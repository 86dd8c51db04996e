import CubeCover.Proofs.Table.Derivation

/-! Steps that fail. A table may hold cubes of different lengths, and a step marks rows with the number
of a row that it has not appended yet. If the lengths do not fit, the step fails before it marks
anything: a run that fails leaves the table that its last complete step made, and has marked no row
with the number of the row that is missing. Only a row that had this mark before the run has it
afterwards. -/
namespace CubeCover

namespace Table

/-- A mark of cancellation in the table `t'` is the number of one of its rows, unless the row stood
there in the table `t`, with this mark. -/
def MarksFrom (t t' : Table) : Prop :=
  ∀ (i : Nat) (row : Row) (k : Int), t'.rows[i]? = some row → row.cancelledBy = some k →
    t.rows[i]? = some row ∨ ∃ other ∈ t'.rows.toList, other.number = k

/-- A row is marked with the number of the row that comes next, and no row has this number yet. -/
def NamesMissing (t : Table) (row : Row) : Prop :=
  row.cancelledBy = some t.nextNumber ∧ ∀ other ∈ t.rows.toList, other.number ≠ t.nextNumber

variable {t t' t'' : Table}

theorem Combined.exists_number {outer inner : Nat} {a b : Row} (h : Combined t outer inner a b t')
    {row : Row} (hrow : row ∈ t.rows.toList) : ∃ other ∈ t'.rows.toList, other.number = row.number := by
  obtain ⟨i, hi⟩ := Array.getElem?_of_mem (Array.mem_toList_iff.mp hrow)
  obtain ⟨row', hrow', hkept⟩ := h.getElem?_kept hi
  exact ⟨row', mem_toList_of_getElem? hrow', hkept.number⟩

theorem MarksFrom.combined {outer inner : Nat} {a b : Row} (h : MarksFrom t t')
    (hstep : Combined t' outer inner a b t'') : MarksFrom t t'' := by
  intro i row k hrow hk
  cases hstep.rowAfter hrow with
  | kept hold =>
    apply (h i row k hold hk).imp_right
    rintro ⟨other, hother, rfl⟩
    exact hstep.exists_number hother
  | cancelled _ _ _ hnew =>
    -- the canceller has been appended in the same step
    exact Or.inr ⟨_, mem_toList_of_getElem? hnew, Option.some.inj hk⟩
  | added => exact absurd hk (by simp [consensusRow])
  | absorbed _ _ _ _ _ _ hstays =>
    exact Or.inr ⟨_, mem_toList_of_getElem? hstays, Option.some.inj hk⟩

theorem MarksFrom.of_reachable {r : Run} (hr : Run.Reachable t r) : MarksFrom t r.table := by
  apply hr.table_induction (P := MarksFrom t) (fun i row k hrow _ => Or.inl hrow)
  intro t₁ t₂ outer inner a b _ _ _ hstep h
  exact h.combined hstep

theorem Numbered.of_reachable {r : Run} (h : t.Numbered) (hr : Run.Reachable t r) :
    r.table.Numbered := by
  apply hr.table_induction (P := Numbered) h
  intro t₁ t₂ outer inner a b _ _ _ hstep hnumbered
  exact hnumbered.combined hstep

/-- The number of the row that comes next is greater than those of the rows. -/
theorem Numbered.ne_nextNumber (h : t.Numbered) {row : Row} (hrow : row ∈ t.rows.toList) :
    row.number ≠ t.nextNumber := by
  obtain ⟨i, hi⟩ := Array.getElem?_of_mem (Array.mem_toList_iff.mp hrow)
  have hlt : i < t.size := lt_size_of_getElem? hi
  rw [h i row hi, nextNumber]
  intro hsame
  have hsucc : i + 1 = t.size + 1 := Int.ofNat.inj hsame
  omega

end Table

namespace Run

variable {r r' : Run} {e : ShapeMismatch}

theorem fault?_of_next? (h : r.next? = some r') : r.fault? = none := by
  unfold next? at h
  split at h
  · exact absurd h (by simp)
  · assumption

theorem next?_of_fault (h : r.next? = some r') (hfault : r'.fault? = some e) :
    r'.table = r.table ∧ r'.trail = r.trail := by
  have hgoes := fault?_of_next? h
  -- only combining two rows can fail, and then it changes nothing
  rcases next?_cases h with ⟨_, _, rfl⟩ | ⟨_, _, _, rfl⟩ | ⟨inner, _, _, rfl⟩
  · exact absurd (hgoes.symm.trans hfault) (by simp)
  · exact absurd (hgoes.symm.trans hfault) (by simp)
  · have hfail := Table.combine_of_fault (hfault : (r.table.combine r.outer inner).fault? = some e)
    simp only [hfail, List.reverse_nil, List.nil_append, and_self]

/-- A run that fails does so in its last step, from a state without a fault. -/
theorem exists_before_fault {t : Table} {exhaustive : Bool}
    (hfault : (t.run exhaustive).fault? = some e) :
    ∃ k r, (start t exhaustive).after k = some r ∧ r.fault? = none ∧
      r.next? = some (t.run exhaustive) := by
  obtain ⟨k, hk⟩ := (start t exhaustive).exists_after_complete
  cases k with
  | zero =>
    -- the start has no fault
    have hsame : start t exhaustive = t.run exhaustive := Option.some.inj hk
    rw [← hsame] at hfault
    exact absurd hfault (by simp [start])
  | succ k =>
    obtain ⟨r, hr, hnext⟩ := (after_succ_eq_some_iff k).mp hk
    exact ⟨k, r, hr, fault?_of_next? hnext, hnext⟩

end Run

/-- On any table, two rows are combined completely, or the table has rows of different lengths and they
fail with two cubes of different lengths and leave the table as it was. So a run that fails ends with the table of the steps before the failing
one. A row is then marked with the number of the row that was not appended only if it stood there before
the run with just this mark. Rows that are numbered by their places never have that number. -/
theorem failed_step_leaves_table (t : Table) :
    (∀ outer inner, outer < t.size → inner < t.size →
      ((t.combine outer inner).fault? = none ∧
        ∃ a b, t.rows[inner]? = some a ∧ t.rows[outer]? = some b ∧
          Table.Combined t outer inner a b (t.combine outer inner).table) ∨
      (∃ row ∈ t.rows.toList, ∃ other ∈ t.rows.toList, row.cube.length ≠ other.cube.length) ∧
        ∃ c d, c.length ≠ d.length ∧ t.combine outer inner = ⟨t, [], some (.cubes c d)⟩) ∧
    ∀ exhaustive e, (t.run exhaustive).fault? = some e →
      (∃ k r, (Run.start t exhaustive).after k = some r ∧ r.fault? = none ∧
        r.next? = some (t.run exhaustive) ∧ (t.run exhaustive).table = r.table ∧
        (t.run exhaustive).events = r.events) ∧
      (∀ (i : Nat) (row : Row), (t.run exhaustive).table.rows[i]? = some row →
        (t.run exhaustive).table.NamesMissing row → t.rows[i]? = some row) ∧
      (t.Numbered → ∀ row ∈ (t.run exhaustive).table.rows.toList,
        row.number ≠ (t.run exhaustive).table.nextNumber) := by
  constructor
  · intro outer inner houter hinner
    have ha : t.rows[inner]? = some t.rows[inner] := Array.getElem?_eq_getElem hinner
    have hb : t.rows[outer]? = some t.rows[outer] := Array.getElem?_eq_getElem houter
    rcases Table.combine_outcome ha hb with ⟨⟨row, hrow, hlength⟩, hfail⟩ | ⟨hnone, hstep⟩
    · exact Or.inr ⟨⟨row, hrow, _, Table.mem_toList_of_getElem? ha, hlength⟩, hfail⟩
    · exact Or.inl ⟨hnone, _, _, ha, hb, hstep⟩
  · intro exhaustive e hfault
    have hreachable := t.reachable_run exhaustive
    refine ⟨?_, ?_, fun hnumbered row => (hnumbered.of_reachable hreachable).ne_nextNumber⟩
    · obtain ⟨k, r, hr, hgoes, hnext⟩ := Run.exists_before_fault hfault
      obtain ⟨htable, htrail⟩ := Run.next?_of_fault hnext hfault
      exact ⟨k, r, hr, hgoes, hnext, htable, congrArg List.reverse htrail⟩
    · rintro i row hrow ⟨hk, hmissing⟩
      rcases Table.MarksFrom.of_reachable hreachable i row _ hrow hk with hold | ⟨other, hother, hnumber⟩
      · exact hold
      · exact absurd hnumber (hmissing other hother)

/-- Six rows, of which one has a mark that names no row and the last one is too short. The run appends a
row that the third one cancels, and fails when it combines the third and the fifth. -/
theorem failed_step_leaves_six_rows :
    let t : Table := ⟨#[⟨1, ⟨[.zero, .zero]⟩, [], none⟩, ⟨2, ⟨[.zero, .one]⟩, [], none⟩,
      ⟨3, ⟨[.zero, .free]⟩, [], none⟩, ⟨4, ⟨[.one]⟩, [], some 9⟩, ⟨5, ⟨[.one, .one]⟩, [], none⟩,
      ⟨6, ⟨[.zero]⟩, [], none⟩]⟩
    (t.run false).table.size = 7 ∧
      (∃ k r, (Run.start t false).after k = some r ∧ r.fault? = none ∧
        r.next? = some (t.run false) ∧ (t.run false).table = r.table) ∧
      ∀ row ∈ (t.run false).table.rows.toList, row.cancelledBy ≠ some 8 := by
  intro t
  have hrun := Run.complete_check 9
    (fun r => r.table.size == 7 && r.fault?.isSome) (r := .start t false) (by decide)
  rw [Bool.and_eq_true, beq_iff_eq, Option.isSome_iff_exists] at hrun
  have hsize : (t.run false).table.size = 7 := hrun.1
  obtain ⟨e, hfault⟩ := hrun.2
  obtain ⟨⟨k, r, hr, hgoes, hnext, htable, _⟩, hmarks, hmissing⟩ :=
    (failed_step_leaves_table t).2 false e hfault
  refine ⟨hsize, ⟨k, r, hr, hgoes, hnext, htable⟩, ?_⟩
  have hnumbered : t.Numbered := by
    intro i row hrow
    have hall : ∀ i : Fin 6, t.rows[i].number = Int.ofNat (i + 1) := by decide
    obtain ⟨hi, rfl⟩ := Array.getElem?_eq_some_iff.mp hrow
    exact hall ⟨i, hi⟩
  intro row hrow hk
  obtain ⟨i, hi⟩ := Array.getElem?_of_mem (Array.mem_toList_iff.mp hrow)
  have hnext : (t.run false).table.nextNumber = 8 := by rw [Table.nextNumber, hsize]; rfl
  have hold := hmarks i row hi ⟨hnext ▸ hk, hmissing hnumbered⟩
  have hall : ∀ row ∈ t.rows.toList, row.cancelledBy ≠ some 8 := by decide
  exact hall row (Table.mem_toList_of_getElem? hold) hk

/-- Two seeds of two digits, a row of one digit, and a row that was marked with the number of a fifth row
when it was appended. The run fails in its first combination, and the mark still names the fifth row. -/
theorem failed_run_keeps_mark_of_missing_row :
    let t : Table := ⟨#[⟨1, ⟨[.zero, .zero]⟩, [], none⟩, ⟨2, ⟨[.zero, .one]⟩, [], none⟩,
      ⟨3, ⟨[.one]⟩, [], none⟩, ⟨4, ⟨[.one, .one]⟩, [], some 5⟩]⟩
    (∃ e, (t.run false).fault? = some e) ∧ (t.run false).table = t ∧
      ∃ row ∈ (t.run false).table.rows.toList, row.cancelledBy = some (t.run false).table.nextNumber := by
  intro t
  have hrun := Run.complete_check 2
    (fun r => r.table == t && r.fault?.isSome) (r := .start t false) (by decide)
  rw [Bool.and_eq_true, beq_iff_eq, Option.isSome_iff_exists] at hrun
  have htable : (t.run false).table = t := hrun.1
  refine ⟨hrun.2, htable, ?_⟩
  rw [htable]
  decide

end CubeCover
