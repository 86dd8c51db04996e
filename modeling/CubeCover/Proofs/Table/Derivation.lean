import CubeCover.Proofs.Table.Reachable

/-! The table as a record of how its cubes came about. The seeds stand first; every later row names
two rows before it and holds their consensus. A step only ever appends a row, so that what a row says
of its cube stays true. -/
namespace CubeCover

namespace Table

/-- Numbers count from one, places from zero. -/
theorem place?_pred_succ (t : Table) (i : Nat) :
    t.place? (Int.ofNat (i + 1) - 1) = if i < t.size then some i else none := by
  have hindex : Int.ofNat (i + 1) - 1 = Int.ofNat i := by
    simp only [Int.ofNat_eq_natCast]
    omega
  have hpos : ¬ Int.ofNat i < 0 := Int.not_lt.mpr (Int.natCast_nonneg i)
  rw [hindex, place?]
  simp only [if_neg hpos]
  by_cases hi : i < t.size
  · have hplace : 0 ≤ Int.ofNat i ∧ Int.ofNat i < (t.size : Int) :=
      ⟨Int.natCast_nonneg i, Int.ofNat_lt.mpr hi⟩
    rw [if_pos hplace, if_pos hi]
    rfl
  · have hplace : ¬ (0 ≤ Int.ofNat i ∧ Int.ofNat i < (t.size : Int)) := fun h =>
      hi (Int.ofNat_lt.mp h.2)
    rw [if_neg hplace, if_neg hi]

theorem row?_succ (t : Table) (i : Nat) : t.row? (Int.ofNat (i + 1)) = t.rows[i]? := by
  rw [row?, get?, place?_pred_succ]
  split
  · rfl
  · rename_i hi
    rw [Array.getElem?_eq_none (Nat.le_of_not_lt hi)]
    rfl

/-- The rows are numbered by their places, from one. -/
def Numbered (t : Table) : Prop :=
  ∀ (i : Nat) (row : Row), t.rows[i]? = some row → row.number = Int.ofNat (i + 1)

theorem Numbered.combined {t t' : Table} {outer inner : Nat} {a b : Row} (h : t.Numbered)
    (hstep : Combined t outer inner a b t') : t'.Numbered := by
  intro i row hrow
  cases hstep.rowAfter hrow with
  | kept hold => exact h i row hold
  | @cancelled old hold => exact h i old hold
  | added hi => rw [hi]; rfl
  | absorbed hi => rw [hi]; rfl

/-- The row at a place holds the consensus of two rows before it, and it names them. -/
structure FormedAt (t : Table) (i : Nat) (row : Row) (outer inner : Nat) (a b : Row) : Prop where
  inner_lt : inner < outer
  outer_lt : outer < i
  inner_row : t.rows[inner]? = some a
  outer_row : t.rows[outer]? = some b
  formedBy : row.formedBy = [Int.ofNat (outer + 1), Int.ofNat (inner + 1)]
  conflicts : a.cube.conflicts b.cube = 1
  cube : row.cube = a.cube.consensus b.cube

namespace FormedAt

variable {t t' : Table} {outer inner : Nat} {a b : Row}

/-- What a row tells of its parents stays true, since these keep their places and cubes. -/
theorem combined {i p q : Nat} {old row c d : Row} (h : t.FormedAt i old p q c d)
    (hrow : old.Kept row) (hstep : Combined t outer inner a b t') :
    ∃ c' d', t'.FormedAt i row p q c' d' := by
  obtain ⟨c', hc', hkeptc⟩ := hstep.getElem?_kept h.inner_row
  obtain ⟨d', hd', hkeptd⟩ := hstep.getElem?_kept h.outer_row
  refine ⟨c', d', h.inner_lt, h.outer_lt, hc', hd', hrow.formedBy.trans h.formedBy, ?_, ?_⟩
  · rw [hkeptc.cube, hkeptd.cube]
    exact h.conflicts
  · rw [hrow.cube, hkeptc.cube, hkeptd.cube]
    exact h.cube

theorem of_combined (hlt : inner < outer) (ha : t.rows[inner]? = some a)
    (hb : t.rows[outer]? = some b) (hstep : Combined t outer inner a b t')
    (hone : a.cube.conflicts b.cube = 1) (canceller? : Option Int) :
    ∃ a' b', t'.FormedAt t.size
      (t.consensusRow outer inner (a.cube.consensus b.cube) canceller?) outer inner a' b' := by
  obtain ⟨a', ha', hkepta⟩ := hstep.getElem?_kept ha
  obtain ⟨b', hb', hkeptb⟩ := hstep.getElem?_kept hb
  refine ⟨a', b', hlt, lt_size_of_getElem? hb, ha', hb', rfl, ?_, ?_⟩
  · rw [hkepta.cube, hkeptb.cube]
    exact hone
  · rw [hkepta.cube, hkeptb.cube]
    rfl

end FormedAt

/-- The rows are numbered by their places, the seeds come first, and all other rows are formed by
rows before them. -/
structure Derivation (seeds : List Cube) (t : Table) : Prop where
  numbered : ∀ (i : Nat) (row : Row), t.rows[i]? = some row → row.number = Int.ofNat (i + 1)
  seed : ∀ (i : Nat) (c : Cube), seeds[i]? = some c →
    ∃ row, t.rows[i]? = some row ∧ row.cube = c ∧ row.formedBy = []
  formed : ∀ (i : Nat) (row : Row), seeds.length ≤ i → t.rows[i]? = some row →
    ∃ outer inner a b, t.FormedAt i row outer inner a b

namespace Derivation

variable {seeds : List Cube} {t t' : Table} {outer inner : Nat} {a b : Row}

theorem of_seedRows (h : t.rows.toList = (seeds.zipIdx 1).map seedRow) : t.Derivation seeds := by
  have hplace (i : Nat) : t.rows[i]? = (seeds[i]?.map fun c => seedRow (c, 1 + i)) := by
    rw [← Array.getElem?_toList, h, List.getElem?_map, List.getElem?_zipIdx, Option.map_map]
    rfl
  refine ⟨?_, ?_, ?_⟩
  · intro i row hrow
    rw [hplace, Option.map_eq_some_iff] at hrow
    obtain ⟨c, _, rfl⟩ := hrow
    rw [seedRow, Nat.add_comm]
  · intro i c hc
    exact ⟨seedRow (c, 1 + i), by rw [hplace, hc]; rfl, rfl, rfl⟩
  · intro i row hi hrow
    rw [hplace, List.getElem?_eq_none hi] at hrow
    exact absurd hrow (by simp)

theorem combined (h : t.Derivation seeds) (hlt : inner < outer) (ha : t.rows[inner]? = some a)
    (hb : t.rows[outer]? = some b) (hstep : Combined t outer inner a b t') :
    t'.Derivation seeds := by
  have hkept (i : Nat) (old row : Row) (hi : seeds.length ≤ i) (hold : t.rows[i]? = some old)
      (hrow : old.Kept row) : ∃ outer inner a b, t'.FormedAt i row outer inner a b := by
    obtain ⟨p, q, _, _, hformed⟩ := h.formed i old hi hold
    exact ⟨p, q, hformed.combined hrow hstep⟩
  have hnumbered : t.Numbered := h.numbered
  refine ⟨hnumbered.combined hstep, ?_, ?_⟩
  · intro i c hc
    obtain ⟨old, hold, hcube, hformedBy⟩ := h.seed i c hc
    obtain ⟨row, hrow, hkeptrow⟩ := hstep.getElem?_kept hold
    exact ⟨row, hrow, hkeptrow.cube.trans hcube, hkeptrow.formedBy.trans hformedBy⟩
  · -- an old row keeps what it tells, and the row at the end tells of the rows just combined
    intro i row hi hrow
    cases hstep.rowAfter hrow with
    | kept hold => exact hkept i row row hi hold row.kept_refl
    | cancelled hold hactive => exact hkept i _ _ hi hold (Row.kept_cancel hactive _)
    | added hend hone =>
      exact ⟨outer, inner, hend ▸ FormedAt.of_combined hlt ha hb hstep hone none⟩
    | absorbed hend hone =>
      exact ⟨outer, inner, hend ▸ FormedAt.of_combined hlt ha hb hstep hone _⟩

theorem of_reachable {r : Run} (h : t.Derivation seeds) (hr : Run.Reachable t r) :
    r.table.Derivation seeds :=
  hr.table_induction (P := fun t => t.Derivation seeds) h
    fun _ _ _ _ _ _ hlt ha hb hstep ht => ht.combined hlt ha hb hstep

end Derivation

end Table

/-- A step of any run appends one row at most, and keeps all that a row tells of its cube. -/
theorem Run.kept_next? {r r' : Run} (h : r.next? = some r') (hle : r.inner ≤ r.outer) :
    (r'.table.size = r.table.size ∨ r'.table.size = r.table.size + 1) ∧
      ∀ (i : Nat) (old : Row), r.table.rows[i]? = some old →
        ∃ row, r'.table.rows[i]? = some row ∧ old.Kept row := by
  rcases combined_next? h hle with hsame | ⟨inner, a, b, _, _, _, hstep⟩
  · rw [hsame]
    exact ⟨Or.inl rfl, fun i old hold => ⟨old, hold, Row.kept_refl old⟩⟩
  · exact ⟨hstep.size_cases, fun i old hold => hstep.getElem?_kept hold⟩

/-- In every state of any number of runs the rows are numbered from one, the seeds come first without
parents, and any other row is the consensus of the two rows before it that it names. A step appends
one row at most and changes nothing else but the cancellers of active rows. -/
theorem rows_record_their_derivation (seeds : List Cube) (hne : seeds ≠ []) (n : Nat)
    (hlength : ∀ c ∈ seeds, c.length = n) :
    ∃ t, Table.ofSeeds seeds = .ok t ∧ ∀ r, Run.Reachable t r →
      (∀ (i : Nat) (row : Row), r.table.rows[i]? = some row → row.number = Int.ofNat (i + 1)) ∧
      (∀ (i : Nat) (c : Cube), seeds[i]? = some c →
        ∃ row, r.table.rows[i]? = some row ∧ row.cube = c ∧ row.formedBy = []) ∧
      (∀ (i : Nat) (row : Row), seeds.length ≤ i → r.table.rows[i]? = some row →
        ∃ (p q : Int) (outer inner : Row), row.formedBy = [p, q] ∧ 0 < q ∧ q < p ∧
          p < row.number ∧ r.table.row? p = some outer ∧ r.table.row? q = some inner ∧
          inner.cube.conflicts outer.cube = 1 ∧
          row.cube = inner.cube.consensus outer.cube) ∧
      ∀ r', r.next? = some r' →
        (r'.table.size = r.table.size ∨ r'.table.size = r.table.size + 1) ∧
        ∀ (i : Nat) (old : Row), r.table.rows[i]? = some old →
          ∃ row, r'.table.rows[i]? = some row ∧ old.Kept row := by
  obtain ⟨t, hseeds, hrows⟩ := Table.ofSeeds_spec seeds hne n hlength
  refine ⟨t, hseeds, ?_⟩
  intro r hr
  have h := (Table.Derivation.of_seedRows hrows).of_reachable hr
  refine ⟨h.numbered, h.seed, ?_, fun r' hnext => Run.kept_next? hnext hr.inner_le_outer⟩
  intro i row hi hrow
  obtain ⟨outer, inner, a, b, hformed⟩ := h.formed i row hi hrow
  have hnumber := h.numbered i row hrow
  have hinner := hformed.inner_lt
  have houter := hformed.outer_lt
  refine ⟨Int.ofNat (outer + 1), Int.ofNat (inner + 1), b, a, hformed.formedBy, ?_, ?_, ?_, ?_, ?_,
    hformed.conflicts, hformed.cube⟩
  · exact Int.ofNat_lt.mpr (Nat.succ_pos inner)
  · exact Int.ofNat_lt.mpr (by omega)
  · rw [hnumber]
    exact Int.ofNat_lt.mpr (by omega)
  · rw [Table.row?_succ]
    exact hformed.outer_row
  · rw [Table.row?_succ]
    exact hformed.inner_row

/-- An exhaustive run on the two points of a line appends their consensus as the third row. -/
theorem rows_record_derivation_of_two_points :
    ∃ t, Table.ofSeeds [⟨[.zero]⟩, ⟨[.one]⟩] = .ok t ∧ (t.run true).table.size = 3 ∧
      ∀ (i : Nat) (row : Row), 2 ≤ i → (t.run true).table.rows[i]? = some row →
        ∃ (p q : Int) (outer inner : Row), row.formedBy = [p, q] ∧ 0 < q ∧ q < p ∧
          p < row.number ∧ (t.run true).table.row? p = some outer ∧
          (t.run true).table.row? q = some inner ∧ inner.cube.conflicts outer.cube = 1 ∧
          row.cube = inner.cube.consensus outer.cube := by
  obtain ⟨t, ht, h⟩ := rows_record_their_derivation [⟨[.zero]⟩, ⟨[.one]⟩] (by decide) 1 (by decide)
  have hend := (h (t.run true) (Run.Reachable.start true).complete.1).2.2.1
  refine ⟨t, ht, ?_, hend⟩
  obtain rfl := Except.ok.inj ht
  have hsize := Run.complete_check 5 (fun r => r.table.size == 3)
    (r := .start ⟨#[⟨1, ⟨[.zero]⟩, [], none⟩, ⟨2, ⟨[.one]⟩, [], none⟩]⟩ true) (by decide)
  exact beq_iff_eq.mp hsize

end CubeCover
