import CubeCover.Proofs.Cube.Implicants
import CubeCover.Table.Progress

/-! What a step of the consensus procedure makes of a table of cubes of one length. Either the table
stays, or it gets a cancelled row, or it gets an active row that takes the place of the survivors
that it covers. No cube that the survivors cover is lost. -/
namespace CubeCover

theorem Cube.matched_of_length {α : Type} {a b : Cube} (h : a.length = b.length) (x : α) :
    a.matched b x = .ok x := if_pos h

/-- The search fails at an active row of another length, or it is a search for the first active row
over the cube. -/
theorem Row.firstCovering_cases (cube : Cube) (rows : List Row) :
    (∃ row ∈ rows, row.cube.length ≠ cube.length ∧
      Row.firstCovering cube rows = .error (.cubes row.cube cube)) ∨
      Row.firstCovering cube rows =
        .ok (rows.find? fun row => row.isActive && row.cube.covers cube) := by
  induction rows with
  | nil => exact Or.inr rfl
  | cons row rest ih =>
    have hrest : (∃ r ∈ row :: rest, r.cube.length ≠ cube.length ∧
        Row.firstCovering cube rest = .error (.cubes r.cube cube)) ∨ Row.firstCovering cube rest =
          .ok (rest.find? fun row => row.isActive && row.cube.covers cube) := by
      apply ih.imp_left
      rintro ⟨r, hr, hfail⟩
      exact ⟨r, List.mem_cons_of_mem _ hr, hfail⟩
    rw [Row.firstCovering, List.find?_cons]
    cases ha : row.isActive with
    | false => simpa using hrest
    | true =>
      by_cases hlength : row.cube.length = cube.length
      · have hrow : row.covers cube = .ok (row.cube.covers cube) := Cube.matched_of_length hlength _
        cases hc : row.cube.covers cube with
        | false => simpa [hrow, hc] using hrest
        | true => exact Or.inr (by simp [hrow, hc])
      · have hrow : row.covers cube = .error (.cubes row.cube cube) := if_neg hlength
        exact Or.inl ⟨row, List.mem_cons_self, hlength, by rw [if_pos rfl, hrow]⟩

theorem cube_cancelIfCovered (cube : Cube) (canceller : Int) (row : Row) :
    (cancelIfCovered cube canceller row).cube = row.cube := by
  unfold cancelIfCovered
  split <;> rfl

theorem cancelIfCovered_cases (cube : Cube) (canceller : Int) (row : Row) :
    cancelIfCovered cube canceller row = row ∨
      (row.isActive = true ∧ cube.covers row.cube = true ∧
        cancelIfCovered cube canceller row = row.cancel canceller) := by
  unfold cancelIfCovered
  split
  · rename_i hcancel
    rw [Bool.and_eq_true] at hcancel
    exact Or.inr ⟨hcancel.1, hcancel.2, rfl⟩
  · exact Or.inl rfl

theorem isActive_cancelIfCovered (cube : Cube) (canceller : Int) (row : Row) :
    (cancelIfCovered cube canceller row).isActive = (row.isActive && !cube.covers row.cube) := by
  unfold cancelIfCovered
  cases ha : row.isActive <;> cases hc : cube.covers row.cube <;> simp [Row.cancel, ha]
  rfl

/-- What a step keeps of a row: all but its canceller, and that too once it has one. -/
structure Row.Kept (old row : Row) : Prop where
  number : row.number = old.number
  cube : row.cube = old.cube
  formedBy : row.formedBy = old.formedBy
  cancelledBy : ∀ k, old.cancelledBy = some k → row.cancelledBy = some k

theorem Row.kept_refl (row : Row) : row.Kept row := ⟨rfl, rfl, rfl, fun _ => id⟩

theorem Row.Kept.trans {a b c : Row} (hab : a.Kept b) (hbc : b.Kept c) : a.Kept c := by
  refine ⟨hbc.number.trans hab.number, hbc.cube.trans hab.cube, hbc.formedBy.trans hab.formedBy, ?_⟩
  intro k hk
  exact hbc.cancelledBy k (hab.cancelledBy k hk)

theorem Row.kept_cancel {row : Row} (hactive : row.isActive = true) (canceller : Int) :
    row.Kept (row.cancel canceller) := by
  refine ⟨rfl, rfl, rfl, ?_⟩
  intro k hk
  simp [Row.isActive, hk] at hactive

namespace Table

/-- The cubes of a table have one length. -/
def Uniform (t : Table) (n : Nat) : Prop := ∀ row ∈ t.rows.toList, row.cube.length = n

/-- The row that tells of the consensus of the rows at two places. -/
def consensusRow (t : Table) (outer inner : Nat) (cube : Cube) (cancelledBy : Option Int) : Row :=
  ⟨t.nextNumber, cube, [Int.ofNat (outer + 1), Int.ofNat (inner + 1)], cancelledBy⟩

/-- What combining the rows `b` and `a`, at an outer and an inner place, makes of a table. -/
inductive Combined (t : Table) (outer inner : Nat) (a b : Row) : Table → Prop
  | unchanged (hne : a.cube.conflicts b.cube ≠ 1) : Combined t outer inner a b t
  | absorbed (row : Row) (hone : a.cube.conflicts b.cube = 1)
      (hfirst : t.rows.toList.find? (fun row =>
        row.isActive && row.cube.covers (a.cube.consensus b.cube)) = some row) :
      Combined t outer inner a b
        ⟨t.rows.push (t.consensusRow outer inner (a.cube.consensus b.cube) (some row.number))⟩
  | added (hone : a.cube.conflicts b.cube = 1)
      (hnone : ∀ row ∈ t.rows.toList, row.isActive = true →
        row.cube.covers (a.cube.consensus b.cube) = false) :
      Combined t outer inner a b
        ⟨(t.rows.toList.map (cancelIfCovered (a.cube.consensus b.cube) t.nextNumber)).toArray.push
          (t.consensusRow outer inner (a.cube.consensus b.cube) none)⟩

/-- What stands at a place of the table `t'` that combining two rows makes of `t`: the row that stood
there, that row with the consensus as its canceller, or the consensus itself at the end. -/
inductive RowAfter (t : Table) (outer inner : Nat) (a b : Row) (t' : Table) (i : Nat) : Row → Prop
  | kept {row : Row} (hold : t.rows[i]? = some row) : RowAfter t outer inner a b t' i row
  | cancelled {old : Row} (hold : t.rows[i]? = some old) (hactive : old.isActive = true)
      (hcov : (a.cube.consensus b.cube).covers old.cube = true)
      (hnew : t'.rows[t.size]? =
        some (t.consensusRow outer inner (a.cube.consensus b.cube) none)) :
      RowAfter t outer inner a b t' i (old.cancel t.nextNumber)
  | added (hi : i = t.size) (hone : a.cube.conflicts b.cube = 1)
      (hnone : ∀ row ∈ t.rows.toList, row.isActive = true →
        row.cube.covers (a.cube.consensus b.cube) = false) :
      RowAfter t outer inner a b t' i
        (t.consensusRow outer inner (a.cube.consensus b.cube) none)
  | absorbed (hi : i = t.size) (hone : a.cube.conflicts b.cube = 1) (j : Nat) {first : Row}
      (hfirst : t.rows[j]? = some first) (hactive : first.isActive = true)
      (hcov : first.cube.covers (a.cube.consensus b.cube) = true)
      (hstays : t'.rows[j]? = some first) :
      RowAfter t outer inner a b t' i
        (t.consensusRow outer inner (a.cube.consensus b.cube) (some first.number))

variable {t t' : Table} {outer inner : Nat} {a b : Row}

theorem mem_toList_of_getElem? {i : Nat} {row : Row} (h : t.rows[i]? = some row) :
    row ∈ t.rows.toList :=
  Array.mem_toList_iff.mpr (Array.mem_of_getElem? h)

theorem lt_size_of_getElem? {i : Nat} {row : Row} (h : t.rows[i]? = some row) : i < t.size :=
  (Array.getElem?_eq_some_iff.mp h).1

theorem isActiveAt_of_getElem? {i : Nat} {row : Row} (h : t.rows[i]? = some row) :
    t.isActiveAt i = row.isActive := by
  rw [isActiveAt, h]
  rfl

theorem isActiveAt_iff {i : Nat} : t.isActiveAt i = true ↔ ∃ row, t.rows[i]? = some row ∧
    row.isActive = true := by
  rw [isActiveAt, Option.any_eq_true]

/-- The rows of a table that is changed row by row and gets a row at its end. -/
theorem getElem?_map_push (t : Table) (f : Row → Row) (new : Row) (i : Nat) :
    ((t.rows.toList.map f).toArray.push new)[i]? =
      if i = t.size then some new else t.rows[i]?.map f := by
  have hsize : (t.rows.toList.map f).toArray.size = t.size := by simp [size]
  rw [Array.getElem?_push, hsize]
  split
  · rfl
  · simp

/-- Combining two rows of any table fails at a row of another length and changes nothing, or it does
not fail. -/
theorem combine_outcome (ha : t.rows[inner]? = some a) (hb : t.rows[outer]? = some b) :
    ((∃ row ∈ t.rows.toList, row.cube.length ≠ a.cube.length) ∧
      ∃ c d, c.length ≠ d.length ∧ t.combine outer inner = ⟨t, [], some (.cubes c d)⟩) ∨
    ((t.combine outer inner).fault? = none ∧
      Combined t outer inner a b (t.combine outer inner).table) := by
  simp only [combine, ha, hb]
  by_cases hlength : a.cube.length = b.cube.length
  · rw [Cube.matched_of_length hlength]
    by_cases hone : a.cube.conflicts b.cube = 1
    · simp only [if_pos hone, appendConsensus, firstCovering]
      have hlc := Cube.length_consensus a.cube b.cube hlength
      rcases Row.firstCovering_cases (a.cube.consensus b.cube) t.rows.toList with
        ⟨row, hrow, hne, hfirst⟩ | hfirst
      · rw [hfirst]
        exact Or.inl ⟨⟨row, hrow, hlc ▸ hne⟩, _, _, hne, rfl⟩
      · rw [hfirst]
        refine Or.inr ?_
        cases hfound : t.rows.toList.find? (fun row =>
            row.isActive && row.cube.covers (a.cube.consensus b.cube)) with
        | some row => exact ⟨rfl, .absorbed row hone hfound⟩
        | none =>
          -- the search has compared the consensus with every active row, so the pass cannot fail
          rw [hfound] at hfirst
          have hnone := Row.firstCovering_none _ _ hfirst
          have hpass := cancelCovered_rows (a.cube.consensus b.cube) t.nextNumber t.rows.toList
            fun row hrow hactive => (hnone row hrow hactive).1
          simp only [hpass.2, appendTelling, hpass.1, true_and]
          exact .added hone fun row hrow hactive => (hnone row hrow hactive).2
    · simp only [if_neg hone]
      exact Or.inr ⟨trivial, .unchanged hone⟩
  · have hm : a.cube.matched b.cube (a.cube.conflicts b.cube) = .error (.cubes a.cube b.cube) :=
      if_neg hlength
    rw [hm]
    exact Or.inl ⟨⟨b, mem_toList_of_getElem? hb, Ne.symm hlength⟩, _, _, hlength, rfl⟩

/-- In a table of cubes of one length, combining two rows never fails. -/
theorem combine_spec (n : Nat) (huniform : t.Uniform n) (ha : t.rows[inner]? = some a)
    (hb : t.rows[outer]? = some b) :
    (t.combine outer inner).fault? = none ∧
      Combined t outer inner a b (t.combine outer inner).table := by
  rcases combine_outcome ha hb with ⟨⟨row, hrow, hlength⟩, _⟩ | h
  · have hla := huniform a (mem_toList_of_getElem? ha)
    exact absurd ((huniform row hrow).trans hla.symm) hlength
  · exact h

/-- A step changes nothing, or it combines two rows of the table. -/
theorem combine_cases (t : Table) (outer inner : Nat) :
    (t.combine outer inner).table = t ∨
      ∃ a b, t.rows[inner]? = some a ∧ t.rows[outer]? = some b ∧
        Combined t outer inner a b (t.combine outer inner).table := by
  cases ha : t.rows[inner]? with
  | none => exact Or.inl (by simp [combine, ha])
  | some a =>
    cases hb : t.rows[outer]? with
    | none => exact Or.inl (by simp [combine, ha, hb])
    | some b =>
      rcases combine_outcome ha hb with ⟨_, c, d, _, hfail⟩ | ⟨_, h⟩
      · exact Or.inl (by rw [hfail])
      · exact Or.inr ⟨a, b, rfl, rfl, h⟩

/-- A step that fails leaves the table as it was, and tells of nothing. -/
theorem combine_of_fault {e : ShapeMismatch} (h : (t.combine outer inner).fault? = some e) :
    t.combine outer inner = ⟨t, [], some e⟩ := by
  cases ha : t.rows[inner]? with
  | none => simp [combine, ha] at h
  | some a =>
    cases hb : t.rows[outer]? with
    | none => simp [combine, ha, hb] at h
    | some b =>
      rcases combine_outcome ha hb with ⟨_, c, d, _, hfail⟩ | ⟨hnone, _⟩
      · have he : e = .cubes c d := by
          rw [hfail] at h
          exact (Option.some.inj h).symm
        rw [hfail, he]
      · exact absurd (hnone.symm.trans h) (by simp)

theorem fault?_combine (n : Nat) (huniform : t.Uniform n) (outer inner : Nat) :
    (t.combine outer inner).fault? = none := by
  cases ha : t.rows[inner]? with
  | none => simp [combine, ha]
  | some a =>
    cases hb : t.rows[outer]? with
    | none => simp [combine, ha, hb]
    | some b => exact (combine_spec n huniform ha hb).1

theorem mem_survivors (t : Table) (c : Cube) :
    c ∈ t.survivors ↔ ∃ row ∈ t.rows.toList, row.isActive = true ∧ row.cube = c := by
  simp only [survivors, activeRows, List.mem_map, List.mem_filter, and_assoc]

theorem survivors_push (t : Table) (row : Row) :
    survivors ⟨t.rows.push row⟩ =
      t.survivors ++ if row.isActive = true then [row.cube] else [] := by
  simp only [survivors, activeRows, Array.toList_push, List.filter_append, List.map_append,
    List.filter_cons, List.filter_nil]
  cases row.isActive <;> rfl

theorem survivors_cancel (cube : Cube) (canceller : Int) (rows : List Row) :
    survivors ⟨(rows.map (cancelIfCovered cube canceller)).toArray⟩ =
      (survivors ⟨rows.toArray⟩).filter fun s => !cube.covers s := by
  simp only [survivors, activeRows]
  induction rows with
  | nil => rfl
  | cons row rest ih =>
    simp only [List.map_cons, List.filter_cons, isActive_cancelIfCovered] at ih ⊢
    cases ha : row.isActive with
    | false => simpa using ih
    | true =>
      cases hc : cube.covers row.cube with
      | false => simpa [cube_cancelIfCovered, hc] using ih
      | true => simpa [hc] using ih

theorem coveredBy_survivors_of_find? {cube : Cube} {row : Row}
    (h : t.rows.toList.find? (fun row => row.isActive && row.cube.covers cube) = some row) :
    Cube.CoveredBy t.survivors cube := by
  have hrow := List.find?_some h
  rw [Bool.and_eq_true] at hrow
  exact ⟨row.cube, (mem_survivors t row.cube).mpr ⟨row, List.mem_of_find?_eq_some h, hrow.1, rfl⟩,
    hrow.2⟩

namespace Combined

/-- The survivors stay, or a cube that none of them covers replaces those that it covers. -/
theorem survivors_cases (h : Combined t outer inner a b t') :
    (t'.survivors = t.survivors ∧
      (a.cube.conflicts b.cube = 1 → Cube.CoveredBy t.survivors (a.cube.consensus b.cube))) ∨
    (a.cube.conflicts b.cube = 1 ∧
      (∀ s ∈ t.survivors, s.covers (a.cube.consensus b.cube) = false) ∧
      t'.survivors = (t.survivors.filter fun s => !(a.cube.consensus b.cube).covers s) ++
        [a.cube.consensus b.cube]) := by
  cases h with
  | unchanged hne => exact Or.inl ⟨rfl, fun hone => absurd hone hne⟩
  | absorbed row hone hfirst =>
    refine Or.inl ⟨?_, fun _ => coveredBy_survivors_of_find? hfirst⟩
    simp [survivors_push, consensusRow, Row.isActive]
  | added hone hnone =>
    refine Or.inr ⟨hone, ?_, ?_⟩
    · intro s hs
      obtain ⟨row, hrow, hactive, rfl⟩ := (mem_survivors t s).mp hs
      exact hnone row hrow hactive
    · rw [survivors_push, survivors_cancel]
      simp [consensusRow, Row.isActive]

theorem coveredBy (h : Combined t outer inner a b t') {d : Cube}
    (hd : Cube.CoveredBy t.survivors d) : Cube.CoveredBy t'.survivors d := by
  rcases h.survivors_cases with ⟨hsame, _⟩ | ⟨_, _, hnew⟩
  · rw [hsame]
    exact hd
  · obtain ⟨s, hs, hcov⟩ := hd
    rw [hnew]
    -- if the survivor over the cube leaves, the consensus that cancels it covers the cube as well
    cases hc : (a.cube.consensus b.cube).covers s with
    | true => exact ⟨_, by simp, Cube.covers_trans _ s d hc hcov⟩
    | false => exact ⟨s, by simp [hs, hc], hcov⟩

theorem coveredBy_consensus (h : Combined t outer inner a b t')
    (hone : a.cube.conflicts b.cube = 1) :
    Cube.CoveredBy t'.survivors (a.cube.consensus b.cube) := by
  rcases h.survivors_cases with ⟨hsame, hcov⟩ | ⟨_, _, hnew⟩
  · rw [hsame]
    exact hcov hone
  · rw [hnew]
    exact ⟨_, by simp, Cube.covers_refl _⟩

theorem size_cases (h : Combined t outer inner a b t') :
    t'.size = t.size ∨ t'.size = t.size + 1 := by
  cases h with
  | unchanged hne => exact Or.inl rfl
  | absorbed first hone hfirst => exact Or.inr (by simp [size])
  | added hone hnone => exact Or.inr (by simp [size])

theorem size_le (h : Combined t outer inner a b t') : t.size ≤ t'.size := by
  rcases h.size_cases with hsize | hsize <;> omega

theorem rowAfter (h : Combined t outer inner a b t') {i : Nat} {row : Row}
    (hrow : t'.rows[i]? = some row) : RowAfter t outer inner a b t' i row := by
  cases h with
  | unchanged hne => exact .kept hrow
  | absorbed first hone hfirst =>
    rw [Array.getElem?_push] at hrow
    split at hrow
    · rename_i hi
      obtain rfl := Option.some.inj hrow
      obtain ⟨j, hj⟩ := Array.getElem?_of_mem
        (Array.mem_toList_iff.mp (List.mem_of_find?_eq_some hfirst))
      have hlt : j < t.rows.size := lt_size_of_getElem? hj
      have hcov := List.find?_some hfirst
      rw [Bool.and_eq_true] at hcov
      refine .absorbed hi hone j hj hcov.1 hcov.2 ?_
      rw [Array.getElem?_push, if_neg (Nat.ne_of_lt hlt)]
      exact hj
    · exact .kept hrow
  | added hone hnone =>
    rw [getElem?_map_push] at hrow
    split at hrow
    · rename_i hi
      obtain rfl := Option.some.inj hrow
      exact .added hi hone hnone
    · obtain ⟨old, hold, rfl⟩ := Option.map_eq_some_iff.mp hrow
      rcases cancelIfCovered_cases (a.cube.consensus b.cube) t.nextNumber old with
        hsame | ⟨hactive, hcov, hcancel⟩
      · rw [hsame]
        exact .kept hold
      · rw [hcancel]
        refine .cancelled hold hactive hcov ?_
        rw [getElem?_map_push, if_pos rfl]

/-- Every row keeps its place. -/
theorem getElem?_kept (h : Combined t outer inner a b t') {i : Nat} {old : Row}
    (hold : t.rows[i]? = some old) : ∃ row, t'.rows[i]? = some row ∧ old.Kept row := by
  have hlt : i < t.size := lt_size_of_getElem? hold
  obtain ⟨row, hrow⟩ : ∃ row, t'.rows[i]? = some row :=
    ⟨_, Array.getElem?_eq_getElem (Nat.lt_of_lt_of_le hlt h.size_le)⟩
  refine ⟨row, hrow, ?_⟩
  -- the consensus stands at a place that the table did not have
  cases h.rowAfter hrow with
  | kept hsame =>
    obtain rfl := Option.some.inj (hold.symm.trans hsame)
    exact old.kept_refl
  | cancelled hsame hactive =>
    obtain rfl := Option.some.inj (hold.symm.trans hsame)
    exact old.kept_cancel hactive t.nextNumber
  | added hi => exact absurd hi (Nat.ne_of_lt hlt)
  | absorbed hi => exact absurd hi (Nat.ne_of_lt hlt)

theorem cube_cases (h : Combined t outer inner a b t') {row : Row} (hrow : row ∈ t'.rows.toList) :
    (∃ old ∈ t.rows.toList, old.cube = row.cube) ∨
      (a.cube.conflicts b.cube = 1 ∧ row.cube = a.cube.consensus b.cube) := by
  obtain ⟨i, hi⟩ := Array.getElem?_of_mem (Array.mem_toList_iff.mp hrow)
  cases h.rowAfter hi with
  | kept hold => exact Or.inl ⟨row, mem_toList_of_getElem? hold, rfl⟩
  | cancelled hold => exact Or.inl ⟨_, mem_toList_of_getElem? hold, rfl⟩
  | added _ hone => exact Or.inr ⟨hone, rfl⟩
  | absorbed _ hone => exact Or.inr ⟨hone, rfl⟩

/-- A row keeps its place and its cube, and a cancelled row stays cancelled. -/
theorem getElem?_cases (h : Combined t outer inner a b t') {i : Nat} (hi : i < t.rows.size)
    {row : Row} (hrow : t'.rows[i]? = some row) :
    ∃ old, t.rows[i]? = some old ∧ old.cube = row.cube ∧
      (row.isActive = true → old.isActive = true) := by
  cases h.rowAfter hrow with
  | kept hold => exact ⟨row, hold, rfl, id⟩
  | cancelled hold hactive => exact ⟨_, hold, rfl, fun _ => hactive⟩
  | added hend => exact absurd hend (Nat.ne_of_lt hi)
  | absorbed hend => exact absurd hend (Nat.ne_of_lt hi)

end Combined

theorem uniform_of_combined (n : Nat) (huniform : t.Uniform n) (ha : a ∈ t.rows.toList)
    (hb : b ∈ t.rows.toList) (h : Combined t outer inner a b t') : t'.Uniform n := by
  intro row hrow
  rcases h.cube_cases hrow with ⟨old, hold, hcube⟩ | ⟨_, hcube⟩
  · rw [← hcube]
    exact huniform old hold
  · have hla := huniform a ha
    have hlb := huniform b hb
    rw [hcube, Cube.length_consensus _ _ (hla.trans hlb.symm), hla]

end Table

end CubeCover
