import CubeCover.Proofs.Table.Closure

/-! Runs after an exhaustive one. They go through all pairs of rows again and append rows again, so that
the table grows with every run. But an exhaustive run leaves survivors that are closed under consensus:
whatever a later run appends is covered and cancelled at once, and the active rows stay as they are. -/
namespace CubeCover

namespace Table

/-- The rows of `t` stand at the front of `t'`, unchanged, and all rows after them are cancelled. -/
def PaddedTo (t t' : Table) : Prop :=
  ∃ extra, t'.rows.toList = t.rows.toList ++ extra ∧ ∀ row ∈ extra, row.isActive = false

namespace PaddedTo

variable {t t' : Table}

theorem refl (t : Table) : t.PaddedTo t := by
  refine ⟨[], (List.append_nil _).symm, ?_⟩
  intro row hrow
  exact absurd hrow List.not_mem_nil

theorem push (h : t.PaddedTo t') {row : Row} (hrow : row.isActive = false) :
    t.PaddedTo ⟨t'.rows.push row⟩ := by
  obtain ⟨extra, hrows, hextra⟩ := h
  refine ⟨extra ++ [row], ?_, ?_⟩
  · rw [Array.toList_push, hrows, List.append_assoc]
  · intro other hother
    rcases List.mem_append.mp hother with hold | hnew
    · exact hextra other hold
    · rw [List.mem_singleton.mp hnew]
      exact hrow

theorem activeRows_eq (h : t.PaddedTo t') : t'.activeRows = t.activeRows := by
  obtain ⟨extra, hrows, hextra⟩ := h
  have hnone : extra.filter Row.isActive = [] := by
    rw [List.filter_eq_nil_iff]
    intro row hrow
    rw [hextra row hrow]
    exact Bool.false_ne_true
  calc t'.activeRows
      = (t.rows.toList ++ extra).filter Row.isActive := by rw [activeRows, hrows]
    _ = t.activeRows ++ extra.filter Row.isActive := List.filter_append _ _
    _ = t.activeRows := by rw [hnone, List.append_nil]

theorem survivors_eq (h : t.PaddedTo t') : t'.survivors = t.survivors :=
  congrArg (List.map Row.cube) h.activeRows_eq

theorem isPrefix (h : t.PaddedTo t') : t.rows.toList <+: t'.rows.toList := by
  obtain ⟨extra, hrows, _⟩ := h
  exact ⟨extra, hrows.symm⟩

end PaddedTo

/-- Two active rows of a closed table leave it as it is, or they add a row that an active row covers and
cancels. -/
theorem Combined.closed_cases {t t' : Table} {outer inner : Nat} {a b : Row}
    (h : Combined t outer inner a b t') (hclosed : Cube.ConsensusClosed t.survivors)
    (ha : a.cube ∈ t.survivors) (hb : b.cube ∈ t.survivors) :
    t' = t ∨ ∃ row first, t' = ⟨t.rows.push row⟩ ∧ first ∈ t.activeRows ∧
      first.cube.covers row.cube = true ∧ row.cancelledBy = some first.number := by
  cases h with
  | unchanged hne => exact Or.inl rfl
  | absorbed first hone hfirst =>
    have hcov := List.find?_some hfirst
    rw [Bool.and_eq_true] at hcov
    have hactive : first ∈ t.activeRows :=
      List.mem_filter.mpr ⟨List.mem_of_find?_eq_some hfirst, hcov.1⟩
    exact Or.inr ⟨_, first, rfl, hactive, hcov.2, rfl⟩
  | added hone hnone =>
    -- some survivor covers the consensus, so the search for one has not come back empty-handed
    obtain ⟨s, hs, hcov⟩ := hclosed _ ha _ hb hone
    obtain ⟨row, hrow, hactive, rfl⟩ := (mem_survivors t s).mp hs
    exact absurd ((hnone row hrow hactive).symm.trans hcov) (by decide)

end Table

namespace Run

variable {t : Table} {r r' : Run}

/-- A run that has added nothing but cancelled rows to a table. An outer row is not cancelled while its
inner rows take their turns. -/
structure Idle (t : Table) (r : Run) : Prop where
  padded : t.PaddedTo r.table
  outer_active : r.inner = 0 ∨ r.table.isActiveAt r.outer = true

/-- What a state of an idle run is followed by: the same table, or a covered row more. -/
theorem Idle.table_cases (h : Idle t r) (hclosed : Cube.ConsensusClosed t.survivors)
    (hnext : r.next? = some r') :
    r'.table = r.table ∨ ∃ row first, r'.table = ⟨r.table.rows.push row⟩ ∧
      first ∈ r.table.activeRows ∧ first.cube.covers row.cube = true ∧
      row.cancelledBy = some first.number := by
  have hsame : Cube.ConsensusClosed r.table.survivors := h.padded.survivors_eq.symm ▸ hclosed
  rcases next?_cases hnext with ⟨_, _, rfl⟩ | ⟨_, _, _, rfl⟩ | ⟨inner, hinner, hactive, rfl⟩
  · exact Or.inl rfl
  · exact Or.inl rfl
  · rcases Table.combine_cases r.table r.outer inner with hkept | ⟨a, b, ha, hb, hstep⟩
    · exact Or.inl hkept
    · -- both rows are active: the inner one since it is not passed over, the outer one as ever
      have houter : r.table.isActiveAt r.outer = true := h.outer_active.resolve_left (by omega)
      rw [Table.isActiveAt_of_getElem? ha] at hactive
      rw [Table.isActiveAt_of_getElem? hb] at houter
      apply hstep.closed_cases hsame
      · exact (Table.mem_survivors _ _).mpr ⟨a, Table.mem_toList_of_getElem? ha, hactive, rfl⟩
      · exact (Table.mem_survivors _ _).mpr ⟨b, Table.mem_toList_of_getElem? hb, houter, rfl⟩

theorem Idle.next (h : Idle t r) (hclosed : Cube.ConsensusClosed t.survivors)
    (hnext : r.next? = some r') : Idle t r' := by
  have htable := h.table_cases hclosed hnext
  -- the rows of the state before stand where they stood
  have hstays : ∀ i, r.table.isActiveAt i = true → r'.table.isActiveAt i = true := by
    intro i hi
    rcases htable with hsame | ⟨row, _, hpush, _⟩
    · rw [hsame]
      exact hi
    · obtain ⟨old, hold, hactive⟩ := (Option.any_eq_true _ _).mp hi
      have hlt : i < r.table.rows.size := Table.lt_size_of_getElem? hold
      rw [hpush, Table.isActiveAt, Array.getElem?_push, if_neg (Nat.ne_of_lt hlt)]
      exact hi
  constructor
  · rcases htable with hsame | ⟨row, first, hpush, _, _, hcancelled⟩
    · rw [hsame]
      exact h.padded
    · rw [hpush]
      apply h.padded.push
      rw [Row.isActive, hcancelled]
      rfl
  · rcases outer_next? hnext with hnone | hactive | ⟨hsame, hinner⟩
    · exact Or.inl hnone
    · exact Or.inr (hstays _ hactive)
    · rw [hsame]
      exact Or.inr (hstays _ (h.outer_active.resolve_left hinner))

/-- All runs on a closed table are idle, from the first state to the last. -/
theorem Reachable.idle (hclosed : Cube.ConsensusClosed t.survivors) (hr : Reachable t r) :
    Idle t r := by
  induction hr with
  | start exhaustive => exact ⟨.refl t, Or.inl rfl⟩
  | next hr hnext ih => exact ih.next hclosed hnext
  | again exhaustive hr hend ih => exact ⟨ih.padded, Or.inl rfl⟩

end Run

/-- After an exhaustive run, no matter which runs came before it, further runs leave the list of active
rows as it is. In each of their states the rows of the exhaustive run stand unchanged at the front of the
table, and a row that a step appends is cancelled by an active row that covers it. -/
theorem exhaustive_survivors_are_stable (seeds : List Cube) (hne : seeds ≠ []) (n : Nat)
    (hlength : ∀ c ∈ seeds, c.length = n) (before : List Bool) :
    ∃ t u, Table.ofSeeds seeds = .ok t ∧ u = ((t.runs before).run true).table ∧
      (∀ later : List Bool, (u.runs later).activeRows = u.activeRows) ∧
      ∀ r, Run.Reachable u r →
        r.fault? = none ∧ r.table.activeRows = u.activeRows ∧
        u.rows.toList <+: r.table.rows.toList ∧
        ∀ r', r.next? = some r' → ∀ (i : Nat) (row : Row), r.table.size ≤ i →
          r'.table.rows[i]? = some row →
          ∃ first ∈ u.activeRows, first.cube.covers row.cube = true ∧
            row.cancelledBy = some first.number := by
  obtain ⟨t, hseeds, hrows⟩ := Table.ofSeeds_spec seeds hne n hlength
  have ht := Table.uniform_of_seedRows hrows n hlength
  have hstart := Table.reachable_start_runs t before true
  have hclosed := Table.consensusClosed_run (t.runs before) n (hstart.uniform n ht)
  have hu := hstart.complete.1.uniform n ht
  refine ⟨t, _, hseeds, rfl, ?_, ?_⟩
  · intro later
    have hlater := Table.reachable_start_runs ((t.runs before).run true).table later true
    exact (hlater.idle hclosed).padded.activeRows_eq
  · intro r hr
    have hidle := hr.idle hclosed
    refine ⟨hr.fault?_eq_none n hu, hidle.padded.activeRows_eq, hidle.padded.isPrefix, ?_⟩
    intro r' hnext i row hi hrow
    have hend : r.table.rows[i]? = none := Array.getElem?_eq_none hi
    rcases hidle.table_cases hclosed hnext with hsame | ⟨new, first, hpush, hfirst, hcov, hmark⟩
    · rw [hsame, hend] at hrow
      exact absurd hrow (by simp)
    · -- beyond the rows of the state before there is the new one alone
      have hnew : new = row := by
        rw [hpush, Array.getElem?_push, hend] at hrow
        split at hrow
        · exact Option.some.inj hrow
        · exact absurd hrow (by simp)
      obtain rfl := hnew
      exact ⟨first, hidle.padded.activeRows_eq ▸ hfirst, hcov, hmark⟩

/-- Of three cubes the second one lies in the first one. An exhaustive run makes five rows of them, another
run appends a sixth one, and the active rows are those at the places 0, 1 and 3 all the time. -/
theorem exhaustive_survivors_are_stable_of_nested_seeds :
    ∃ t u, Table.ofSeeds [⟨[.one, .free]⟩, ⟨[.one, .zero]⟩, ⟨[.zero, .one]⟩] = .ok t ∧
      u = (t.run true).table ∧ u.size = 5 ∧ (u.run true).table.size = 6 ∧
      (u.run true).table.activeRows = u.activeRows ∧
      (u.runs [false, true]).activeRows = u.activeRows ∧
      u.activeRows.map Row.number = [1, 2, 4] := by
  obtain ⟨t, u, ht, hu, hstable, _⟩ := exhaustive_survivors_are_stable
    [⟨[.one, .free]⟩, ⟨[.one, .zero]⟩, ⟨[.zero, .one]⟩] (by decide) 2 (by decide) []
  have hrows : u = ⟨#[⟨1, ⟨[.one, .free]⟩, [], none⟩, ⟨2, ⟨[.one, .zero]⟩, [], none⟩,
      ⟨3, ⟨[.zero, .one]⟩, [], some 4⟩, ⟨4, ⟨[.free, .one]⟩, [3, 1], none⟩,
      ⟨5, ⟨[.one, .free]⟩, [4, 2], some 1⟩]⟩ := by
    obtain rfl := Except.ok.inj ht
    rw [hu]
    exact beq_iff_eq.mp (Run.complete_check 10 (fun r => r.table == _) (by decide))
  have hmore : (u.run true).table.size = 6 := by
    rw [hrows]
    exact beq_iff_eq.mp (Run.complete_check 9 (fun r => r.table.size == 6) (by decide))
  refine ⟨t, u, ht, hu, ?_, hmore, hstable [true], hstable [false, true], ?_⟩
  · rw [hrows]
    rfl
  · rw [hrows]
    rfl

end CubeCover
