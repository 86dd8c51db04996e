import CubeCover.Proofs.Cube.Clashes
import CubeCover.Proofs.Table.Derivation
import CubeCover.Proofs.Table.Growth
import Mathlib.Data.Prod.Basic

/-! How many rows a run appends. Each of them belongs to a pair of earlier rows that conflict at one
place, and no pair is combined twice. Rows that have been active have different cubes, so that the pairs
are limited by the pairs of cubes with one conflict. An exhaustive run combines at least the pairs among
the rows that are active at its end. -/
namespace CubeCover

/-- The places of the rows whose consensus the cube is, the outer one first; a seed has none. -/
def Row.parents? (row : Row) : Option (Nat × Nat) :=
  match row.formedBy with
  | [outer, inner] => some ((outer - 1).toNat, (inner - 1).toNat)
  | _ => none

/-- Whether the row was not cancelled when it was appended: a canceller that came later has a higher
number. -/
def Row.wasActive (row : Row) : Bool := row.cancelledBy.all (row.number < ·)

theorem Row.wasActive_of_isActive {row : Row} (h : row.isActive = true) : row.wasActive = true := by
  rw [wasActive, Option.isNone_iff_eq_none.mp h]
  rfl

/-- The ordered pairs of cubes of a list that conflict at one place. -/
def Cube.clashes (cubes : List Cube) : List (Cube × Cube) :=
  (cubes.product cubes).filter fun pair => pair.1.conflicts pair.2 == 1

namespace Table

/-- The pairs of places that the rows after the seeds belong to, in the order of these rows. -/
def combinations (t : Table) : List (Nat × Nat) := t.rows.toList.filterMap Row.parents?

/-- The cube of the row at a place. -/
def cubeAt (t : Table) (i : Nat) : Cube := (t.rows[i]?.getD default).cube

variable {t t' : Table} {outer inner : Nat} {a b : Row}

theorem cubeAt_of_getElem? {i : Nat} {row : Row} (h : t.rows[i]? = some row) :
    t.cubeAt i = row.cube := by
  rw [cubeAt, h]
  rfl

theorem parents?_consensusRow (t : Table) (outer inner : Nat) (cube : Cube) (canceller? : Option Int) :
    (t.consensusRow outer inner cube canceller?).parents? = some (outer, inner) := by
  have hplace (i : Nat) : (Int.ofNat (i + 1) - 1).toNat = i := by
    simp only [Int.ofNat_eq_natCast]
    omega
  show some ((Int.ofNat (outer + 1) - 1).toNat, (Int.ofNat (inner + 1) - 1).toNat) = _
  rw [hplace, hplace]

theorem combinations_push (t : Table) (row : Row) :
    combinations ⟨t.rows.push row⟩ = t.combinations ++ row.parents?.toList := by
  rw [combinations, Array.toList_push, List.filterMap_append]
  cases h : row.parents? <;> simp [combinations, h]

namespace Combined

/-- A step appends a row for the pair that it combines, if the two conflict at one place. -/
theorem combinations_eq (h : Combined t outer inner a b t') :
    t'.combinations =
      t.combinations ++ if a.cube.conflicts b.cube = 1 then [(outer, inner)] else [] := by
  cases h with
  | unchanged hne => rw [if_neg hne, List.append_nil]
  | absorbed row hone hfirst =>
    rw [combinations_push, parents?_consensusRow, if_pos hone]
    rfl
  | added hone hnone =>
    -- a cancelled row keeps its parents
    have hsame : (t.rows.toList.map
        (cancelIfCovered (a.cube.consensus b.cube) t.nextNumber)).filterMap Row.parents? =
          t.combinations := by
      rw [List.filterMap_map]
      apply List.filterMap_congr
      intro row _
      rcases cancelIfCovered_cases (a.cube.consensus b.cube) t.nextNumber row with hrow | ⟨_, _, hrow⟩
      · rw [Function.comp_apply, hrow]
      · rw [Function.comp_apply, hrow]
        rfl
    rw [combinations_push _ (t.consensusRow outer inner _ none), parents?_consensusRow, if_pos hone,
      combinations, List.toList_toArray, hsame]
    rfl

theorem mem_combinations_iff (h : Combined t outer inner a b t') (p : Nat × Nat) :
    p ∈ t'.combinations ↔
      p ∈ t.combinations ∨ (a.cube.conflicts b.cube = 1 ∧ p = (outer, inner)) := by
  rw [h.combinations_eq, List.mem_append]
  split
  · rename_i hone
    simp only [List.mem_singleton, hone, true_and]
  · rename_i hone
    simp only [List.not_mem_nil, hone, false_and]

/-- A pair that has not been combined before keeps the combinations apart. -/
theorem nodup_combinations (h : Combined t outer inner a b t') (hnodup : t.combinations.Nodup)
    (hnew : (outer, inner) ∉ t.combinations) : t'.combinations.Nodup := by
  rw [h.combinations_eq]
  split
  · apply List.nodup_append.mpr ⟨hnodup, List.nodup_singleton _, _⟩
    intro p hp q hq hpq
    rw [hpq, List.mem_singleton.mp hq] at hp
    exact hnew hp
  · rw [List.append_nil]
    exact hnodup

theorem size_eq (h : Combined t outer inner a b t') :
    t'.size = t.size + if a.cube.conflicts b.cube = 1 then 1 else 0 := by
  cases h with
  | unchanged hne => rw [if_neg hne, Nat.add_zero]
  | absorbed row hone hfirst => rw [if_pos hone, size, Array.size_push, size]
  | added hone hnone =>
    rw [if_pos hone, size, Array.size_push, List.size_toArray, List.length_map, size,
      Array.length_toList]

/-- A row that has been active was so before the step, or no survivor covers its cube. -/
theorem wasActive_cases (h : Combined t outer inner a b t') (hnumbered : t.Numbered) {i : Nat}
    {row : Row} (hrow : t'.rows[i]? = some row) (hwas : row.wasActive = true) :
    (∃ old, t.rows[i]? = some old ∧ old.cube = row.cube ∧ old.wasActive = true) ∨
      (i = t.size ∧ ∀ s ∈ t.survivors, s.covers row.cube = false) := by
  cases h.rowAfter hrow with
  | kept hold => exact Or.inl ⟨row, hold, rfl, hwas⟩
  | cancelled hold hactive => exact Or.inl ⟨_, hold, rfl, Row.wasActive_of_isActive hactive⟩
  | added hi hone hnone =>
    refine Or.inr ⟨hi, ?_⟩
    intro s hs
    obtain ⟨old, hold, hactive, rfl⟩ := (mem_survivors t s).mp hs
    exact hnone old hold hactive
  | @absorbed hi hone j first hfirst =>
    -- the row that cancels the new one has a lower number
    have hlt : j < t.size := lt_size_of_getElem? hfirst
    have hless : t.nextNumber < first.number := of_decide_eq_true hwas
    rw [hnumbered j first hfirst, nextNumber] at hless
    have hback : t.size + 1 < j + 1 := Int.ofNat_lt.mp hless
    omega

/-- What has been active counts as such for ever. -/
theorem wasActive_stays (h : Combined t outer inner a b t') (hnumbered : t.Numbered) {i : Nat}
    {old : Row} (hold : t.rows[i]? = some old) (hwas : old.wasActive = true) :
    ∃ row, t'.rows[i]? = some row ∧ row.cube = old.cube ∧ row.wasActive = true := by
  obtain ⟨row, hrow, hkept⟩ := h.getElem?_kept hold
  refine ⟨row, hrow, hkept.cube, ?_⟩
  have hlt : i < t.size := lt_size_of_getElem? hold
  cases h.rowAfter hrow with
  | kept hsame =>
    obtain rfl := Option.some.inj (hold.symm.trans hsame)
    exact hwas
  | @cancelled old' hsame =>
    have hless : old'.number < t.nextNumber := by
      rw [hnumbered i old' hsame, nextNumber]
      exact Int.ofNat_lt.mpr (Nat.succ_lt_succ hlt)
    exact decide_eq_true hless
  | added hi => exact absurd hi (Nat.ne_of_lt hlt)
  | absorbed hi => exact absurd hi (Nat.ne_of_lt hlt)

end Combined

/-- The rows that have been active have different cubes, since the survivors cover the cubes of all
rows. -/
structure Fresh (t : Table) : Prop where
  numbered : t.Numbered
  covered : ∀ row ∈ t.rows.toList, Cube.CoveredBy t.survivors row.cube
  distinct : ∀ (i j : Nat) (a b : Row), i < j → t.rows[i]? = some a → t.rows[j]? = some b →
    a.wasActive = true → b.wasActive = true → a.cube ≠ b.cube

namespace Fresh

theorem of_seedRows {seeds : List Cube} (hnodup : seeds.Nodup)
    (h : t.rows.toList = (seeds.zipIdx 1).map seedRow) : t.Fresh := by
  refine ⟨(Derivation.of_seedRows h).numbered, ?_, ?_⟩
  · intro row hrow
    rw [survivors_of_seedRows h]
    exact ⟨row.cube, (of_mem_seedRows h hrow).1, Cube.covers_refl row.cube⟩
  · intro i j a b hij ha hb _ _ hsame
    have hseed (k : Nat) (row : Row) (hrow : t.rows[k]? = some row) : seeds[k]? = some row.cube := by
      rw [← Array.getElem?_toList, h, List.getElem?_map, List.getElem?_zipIdx, Option.map_map] at hrow
      obtain ⟨c, hc, rfl⟩ := Option.map_eq_some_iff.mp hrow
      exact hc
    have hi := hseed i a ha
    have hj := hseed j b hb
    rw [← hsame, ← hi] at hj
    have hlt : i < seeds.length := (List.getElem?_eq_some_iff.mp hi).1
    exact absurd ((List.getElem?_inj hlt hnodup).mp hj.symm) (Nat.ne_of_lt hij)

theorem combined (h : t.Fresh) (hstep : Combined t outer inner a b t') : t'.Fresh := by
  refine ⟨h.numbered.combined hstep, ?_, ?_⟩
  · intro row hrow
    rcases hstep.cube_cases hrow with ⟨old, hold, hcube⟩ | ⟨hone, hcube⟩
    · rw [← hcube]
      exact hstep.coveredBy (h.covered old hold)
    · rw [hcube]
      exact hstep.coveredBy_consensus hone
  · intro i j c d hij hc hd hwasc hwasd
    have hsize : j ≤ t.size := by
      have hlt : j < t'.size := lt_size_of_getElem? hd
      rcases hstep.size_cases with hsame | hmore <;> omega
    obtain ⟨old, hold, hcube, hwas⟩ :=
      (hstep.wasActive_cases h.numbered hc hwasc).resolve_right fun hnew => by omega
    rw [← hcube]
    rcases hstep.wasActive_cases h.numbered hd hwasd with ⟨old', hold', hcube', hwas'⟩ | ⟨_, hnone⟩
    · rw [← hcube']
      exact h.distinct i j old old' hij hold hold' hwas hwas'
    · -- the earlier cube is covered at the time when the later one is not
      intro hsame
      obtain ⟨s, hs, hcov⟩ := h.covered old (mem_toList_of_getElem? hold)
      rw [hsame, hnone s hs] at hcov
      exact absurd hcov (by decide)

theorem of_reachable {r : Run} (h : t.Fresh) (hr : Run.Reachable t r) : r.table.Fresh :=
  hr.table_induction (P := Fresh) h fun _ _ _ _ _ _ _ _ _ hstep ht => ht.combined hstep

/-- Rows that have been active are told apart by their cubes. -/
theorem eq_of_cubes (h : t.Fresh) {i j : Nat} {a b : Row} (ha : t.rows[i]? = some a)
    (hb : t.rows[j]? = some b) (hwasa : a.wasActive = true) (hwasb : b.wasActive = true)
    (hcube : a.cube = b.cube) : i = j := by
  rcases Nat.lt_trichotomy i j with hij | hij | hij
  · exact absurd hcube (h.distinct i j a b hij ha hb hwasa hwasb)
  · exact hij
  · exact absurd hcube.symm (h.distinct j i b a hij hb ha hwasb hwasa)

theorem length_wasActive_le (h : t.Fresh) {n : Nat} (ht : t.Uniform n) :
    (t.rows.toList.filter Row.wasActive).length ≤ Nat.pow 3 n := by
  have hnodup : ((t.rows.toList.filter Row.wasActive).map Row.cube).Nodup := by
    rw [List.Nodup, List.pairwise_map, List.pairwise_filter, List.pairwise_iff_getElem]
    intro i j hi hj hij hwasi hwasj
    apply h.distinct i j _ _ hij _ _ hwasi hwasj
    · rw [← Array.getElem?_toList, List.getElem?_eq_getElem hi]
    · rw [← Array.getElem?_toList, List.getElem?_eq_getElem hj]
  have hlength : ∀ c ∈ (t.rows.toList.filter Row.wasActive).map Row.cube, c.length = n := by
    intro c hc
    obtain ⟨row, hrow, rfl⟩ := List.mem_map.mp hc
    exact ht row (List.mem_filter.mp hrow).1
  rw [← List.length_map Row.cube]
  exact Cube.length_le_of_nodup hnodup hlength

end Fresh

/-- Two rows that have been active and conflict at one place, the inner one before the outer one. -/
structure Clash (t : Table) (outer inner : Nat) (a b : Row) : Prop where
  inner_lt : inner < outer
  inner_row : t.rows[inner]? = some a
  outer_row : t.rows[outer]? = some b
  inner_was : a.wasActive = true
  outer_was : b.wasActive = true
  conflicts : a.cube.conflicts b.cube = 1

theorem Clash.combined {p q : Nat} {c d : Row} (h : t.Clash p q c d) (hnumbered : t.Numbered)
    (hstep : Combined t outer inner a b t') : ∃ c' d', t'.Clash p q c' d' := by
  obtain ⟨c', hc', hcubec, hwasc⟩ := hstep.wasActive_stays hnumbered h.inner_row h.inner_was
  obtain ⟨d', hd', hcubed, hwasd⟩ := hstep.wasActive_stays hnumbered h.outer_row h.outer_was
  refine ⟨c', d', h.inner_lt, hc', hd', hwasc, hwasd, ?_⟩
  rw [hcubec, hcubed]
  exact h.conflicts

end Table

namespace Run

variable {t : Table} {r r' : Run}

/-- The combinations of a run so far: pairs of clashing rows that have had their turn, each of them
once. A pair of active rows that clash is among them if it has had its turn. -/
structure Ledger (r : Run) : Prop where
  outer_was : r.inner = 0 ∨ ∃ b, r.table.rows[r.outer]? = some b ∧ b.wasActive = true
  nodup : r.table.combinations.Nodup
  passed : ∀ p ∈ r.table.combinations, r.Passed p.1 p.2
  clash : ∀ p ∈ r.table.combinations, ∃ a b, r.table.Clash p.1 p.2 a b
  recorded : ∀ (i j : Nat) (a b : Row), i < j → r.Passed j i → r.table.rows[i]? = some a →
    r.table.rows[j]? = some b → a.isActive = true → b.isActive = true →
    a.cube.conflicts b.cube = 1 → (j, i) ∈ r.table.combinations

namespace Ledger

theorem start (h : t.combinations = []) (exhaustive : Bool) : (Run.start t exhaustive).Ledger := by
  have hnone : ∀ p, p ∉ t.combinations := by
    intro p hp
    rw [h] at hp
    exact absurd hp List.not_mem_nil
  refine ⟨Or.inl rfl, ?_, fun p hp => absurd hp (hnone p), fun p hp => absurd hp (hnone p), ?_⟩
  · show t.combinations.Nodup
    rw [h]
    exact List.nodup_nil
  · intro i j a b hij hpassed
    have houter : (Run.start t exhaustive).outer = 0 := rfl
    rw [Passed, houter] at hpassed
    omega

/-- A turn without a combination leaves the combinations as they are. -/
theorem keep (h : r.Ledger) (hnext : r.next? = some r') (hsame : r'.table = r.table)
    (hback : ∀ i j : Nat, i < j → r.table.isActiveAt i = true → r.table.isActiveAt j = true →
      r'.Passed j i → r.Passed j i) : r'.Ledger := by
  refine ⟨?_, ?_, ?_, ?_, ?_⟩
  · rw [hsame]
    rcases outer_next? hnext with hnone | hactive | ⟨houter, hinner⟩
    · exact Or.inl hnone
    · obtain ⟨b, hb, hactiveb⟩ := (Option.any_eq_true _ _).mp hactive
      exact Or.inr ⟨b, hb, Row.wasActive_of_isActive hactiveb⟩
    · rw [houter]
      exact Or.inr (h.outer_was.resolve_left hinner)
  · rw [hsame]
    exact h.nodup
  · rw [hsame]
    exact fun p hp => passed_next? hnext (h.passed p hp)
  · rw [hsame]
    exact h.clash
  · intro i j a b hij hpassed ha hb hactivea hactiveb hone
    rw [hsame] at ha hb ⊢
    have hati : r.table.isActiveAt i = true := (Table.isActiveAt_of_getElem? ha).trans hactivea
    have hatj : r.table.isActiveAt j = true := (Table.isActiveAt_of_getElem? hb).trans hactiveb
    exact h.recorded i j a b hij (hback i j hij hati hatj hpassed) ha hb hactivea hactiveb hone

/-- The pair whose turn it is has not been combined before. -/
theorem notMem_combinations (h : r.Ledger) {inner : Nat} (hinner : r.inner = inner + 1) :
    (r.outer, inner) ∉ r.table.combinations := by
  intro hmem
  have hpassed := h.passed _ hmem
  rw [Passed] at hpassed
  dsimp only at hpassed
  omega

theorem combined (h : r.Ledger) (hnumbered : r.table.Numbered) (hle : r.inner ≤ r.outer)
    {inner : Nat} {c d : Row} (hinner : r.inner = inner + 1)
    (hc : r.table.rows[inner]? = some c) (hd : r.table.rows[r.outer]? = some d)
    (hactive : c.isActive = true) (hwas : d.wasActive = true)
    (hstep : Table.Combined r.table r.outer inner c d r'.table) (houter : r'.outer = r.outer)
    (hinner' : r'.inner = inner) : r'.Ledger := by
  have hlt : r.outer < r.table.rows.size := Table.lt_size_of_getElem? hd
  refine ⟨?_, hstep.nodup_combinations h.nodup (h.notMem_combinations hinner), ?_, ?_, ?_⟩
  · obtain ⟨d', hd', _, hwas'⟩ := hstep.wasActive_stays hnumbered hd hwas
    rw [houter]
    exact Or.inr ⟨d', hd', hwas'⟩
  · intro p hp
    rw [Passed, houter, hinner']
    rcases (hstep.mem_combinations_iff p).mp hp with hold | ⟨_, rfl⟩
    · have hpassed := h.passed p hold
      rw [Passed] at hpassed
      omega
    · exact Or.inr ⟨rfl, Nat.le_refl _⟩
  · intro p hp
    rcases (hstep.mem_combinations_iff p).mp hp with hold | ⟨hone, rfl⟩
    · obtain ⟨a, b, hclash⟩ := h.clash p hold
      exact hclash.combined hnumbered hstep
    · have hclash : r.table.Clash r.outer inner c d :=
        ⟨by omega, hc, hd, Row.wasActive_of_isActive hactive, hwas, hone⟩
      exact hclash.combined hnumbered hstep
  · intro i j a' b' hij hpassed ha' hb' hactivea hactiveb hone
    rw [Passed, houter, hinner'] at hpassed
    -- both rows stood at their places before the step, and they were active
    obtain ⟨a, ha, hcubea, hbeforea⟩ := hstep.getElem?_cases (by omega) ha'
    obtain ⟨b, hb, hcubeb, hbeforeb⟩ := hstep.getElem?_cases (by omega) hb'
    rw [← hcubea, ← hcubeb] at hone
    rw [hstep.mem_combinations_iff]
    by_cases hnow : i = inner ∧ j = r.outer
    · obtain ⟨rfl, rfl⟩ := hnow
      obtain rfl := Option.some.inj (ha.symm.trans hc)
      obtain rfl := Option.some.inj (hb.symm.trans hd)
      exact Or.inr ⟨hone, rfl⟩
    · apply Or.inl
      apply h.recorded i j a b hij _ ha hb (hbeforea hactivea) (hbeforeb hactiveb) hone
      rw [Passed]
      omega

theorem next (h : r.Ledger) (n : Nat) (huniform : r.table.Uniform n)
    (hnumbered : r.table.Numbered) (hle : r.inner ≤ r.outer) (hnext : r.next? = some r') :
    r'.Ledger := by
  rcases turn_cases hnext with ⟨hsame, hback⟩ | ⟨inner, hinner, hactive, houter, hinner', htable⟩
  · exact h.keep hnext hsame hback
  · obtain ⟨c, hc, hactivec⟩ := (Option.any_eq_true _ _).mp hactive
    obtain ⟨d, hd, hwas⟩ := h.outer_was.resolve_left (by omega)
    have hstep := (Table.combine_spec n huniform hc hd).2
    rw [← htable] at hstep
    exact h.combined hnumbered hle hinner hc hd hactivec hwas hstep houter hinner'

/-- The combinations both ways, as pairs of cubes. -/
def cubePairs (t : Table) : List (Cube × Cube) :=
  (t.combinations ++ t.combinations.map Prod.swap).map fun p => (t.cubeAt p.1, t.cubeAt p.2)

theorem length_cubePairs (t : Table) : (cubePairs t).length = 2 * t.combinations.length := by
  rw [cubePairs, List.length_map, List.length_append, List.length_map, Nat.two_mul]

theorem clash_or_swap (h : r.Ledger) {p : Nat × Nat}
    (hp : p ∈ r.table.combinations ++ r.table.combinations.map Prod.swap) :
    ∃ a b, r.table.rows[p.1]? = some a ∧ r.table.rows[p.2]? = some b ∧ a.wasActive = true ∧
      b.wasActive = true ∧ a.cube.conflicts b.cube = 1 := by
  rcases List.mem_append.mp hp with hmem | hmem
  · obtain ⟨a, b, hclash⟩ := h.clash p hmem
    exact ⟨b, a, hclash.outer_row, hclash.inner_row, hclash.outer_was, hclash.inner_was,
      (Cube.conflicts_comm _ _).trans hclash.conflicts⟩
  · obtain ⟨q, hq, rfl⟩ := List.mem_map.mp hmem
    obtain ⟨a, b, hclash⟩ := h.clash q hq
    exact ⟨a, b, hclash.inner_row, hclash.outer_row, hclash.inner_was, hclash.outer_was,
      hclash.conflicts⟩

theorem nodup_cubePairs (h : r.Ledger) (hfresh : r.table.Fresh) : (cubePairs r.table).Nodup := by
  apply List.Nodup.map_on
  · intro p hp q hq hsame
    obtain ⟨a, b, ha, hb, hwasa, hwasb, _⟩ := h.clash_or_swap hp
    obtain ⟨c, d, hc, hd, hwasc, hwasd, _⟩ := h.clash_or_swap hq
    rw [Table.cubeAt_of_getElem? ha, Table.cubeAt_of_getElem? hb, Table.cubeAt_of_getElem? hc,
      Table.cubeAt_of_getElem? hd, Prod.mk.injEq] at hsame
    exact Prod.ext (hfresh.eq_of_cubes ha hc hwasa hwasc hsame.1)
      (hfresh.eq_of_cubes hb hd hwasb hwasd hsame.2)
  · refine List.nodup_append.mpr ⟨h.nodup, h.nodup.map Prod.swap_injective, ?_⟩
    -- a pair has the outer place first, and a swapped one has it last
    intro p hp q hq hpq
    obtain ⟨q', hq', rfl⟩ := List.mem_map.mp hq
    obtain ⟨_, _, hclash⟩ := h.clash p hp
    obtain ⟨_, _, hclash'⟩ := h.clash q' hq'
    have hlt := hclash.inner_lt
    have hlt' := hclash'.inner_lt
    rw [hpq, Prod.fst_swap, Prod.snd_swap] at hlt
    omega

/-- No more rows are appended than cubes of that length clash. -/
theorem length_combinations_le (h : r.Ledger) (hfresh : r.table.Fresh) {n : Nat}
    (huniform : r.table.Uniform n) :
    r.table.combinations.length ≤ n * Nat.pow 7 (n - 1) := by
  have hclashes : ∀ pair ∈ cubePairs r.table,
      pair.1.length = n ∧ pair.2.length = n ∧ pair.1.conflicts pair.2 = 1 := by
    intro pair hpair
    obtain ⟨p, hp, rfl⟩ := List.mem_map.mp hpair
    obtain ⟨a, b, ha, hb, _, _, hone⟩ := h.clash_or_swap hp
    dsimp only
    rw [Table.cubeAt_of_getElem? ha, Table.cubeAt_of_getElem? hb]
    exact ⟨huniform a (Table.mem_toList_of_getElem? ha),
      huniform b (Table.mem_toList_of_getElem? hb), hone⟩
  have hle := Cube.length_le_of_clashes (h.nodup_cubePairs hfresh) hclashes
  rw [length_cubePairs] at hle
  omega

/-- Once all pairs have had their turn, no fewer rows are appended than survivors clash. -/
theorem length_clashes_le (h : r.Ledger) {cubes : List Cube} (hcubes : cubes.Nodup)
    (hsurvivors : cubes ⊆ r.table.survivors) (hinner : r.inner = 0)
    (hsize : r.table.size ≤ r.outer + 1) :
    (Cube.clashes cubes).length ≤ 2 * r.table.combinations.length := by
  have hrecorded (i j : Nat) (a b : Row) (hij : i < j) (ha : r.table.rows[i]? = some a)
      (hb : r.table.rows[j]? = some b) (hactivea : a.isActive = true) (hactiveb : b.isActive = true)
      (hone : a.cube.conflicts b.cube = 1) : (j, i) ∈ r.table.combinations := by
    have hlt : j < r.table.size := Table.lt_size_of_getElem? hb
    apply h.recorded i j a b hij _ ha hb hactivea hactiveb hone
    rw [Passed]
    omega
  have hsubset : Cube.clashes cubes ⊆ cubePairs r.table := by
    rintro ⟨c, d⟩ hpair
    obtain ⟨hproduct, hone⟩ := List.mem_filter.mp hpair
    obtain ⟨hc, hd⟩ := List.mem_product.mp hproduct
    rw [beq_iff_eq] at hone
    obtain ⟨a, hmema, hactivea, rfl⟩ := (Table.mem_survivors _ c).mp (hsurvivors hc)
    obtain ⟨b, hmemb, hactiveb, rfl⟩ := (Table.mem_survivors _ d).mp (hsurvivors hd)
    obtain ⟨i, hi⟩ := Array.getElem?_of_mem (Array.mem_toList_iff.mp hmema)
    obtain ⟨j, hj⟩ := Array.getElem?_of_mem (Array.mem_toList_iff.mp hmemb)
    rw [cubePairs, List.mem_map]
    refine ⟨(i, j), ?_, by rw [Table.cubeAt_of_getElem? hi, Table.cubeAt_of_getElem? hj]⟩
    rw [List.mem_append, List.mem_map]
    -- the pair was combined with the later row as the outer one
    rcases Nat.lt_trichotomy i j with hij | hij | hij
    · exact Or.inr ⟨(j, i), hrecorded i j a b hij hi hj hactivea hactiveb hone, rfl⟩
    · have hab : a = b := Option.some.inj (hi.symm.trans (hij ▸ hj))
      rw [hab, Cube.conflicts_self] at hone
      exact absurd hone (by decide)
    · rw [Cube.conflicts_comm] at hone
      exact Or.inl (hrecorded j i b a hij hj hi hactiveb hactivea hone)
  have hnodup : (Cube.clashes cubes).Nodup := (hcubes.product hcubes).filter _
  calc (Cube.clashes cubes).length
      ≤ (cubePairs r.table).length := hnodup.length_le_of_subset hsubset
    _ = 2 * r.table.combinations.length := length_cubePairs r.table

end Ledger

/-- Every row is a seed or belongs to a combination. -/
theorem Reachable.size_eq {seeds : Nat} (h : t.size = seeds + t.combinations.length)
    (hr : Reachable t r) : r.table.size = seeds + r.table.combinations.length := by
  apply hr.table_induction (P := fun t => t.size = seeds + t.combinations.length) h
  intro t t' outer inner a b _ _ _ hstep ht
  rw [hstep.size_eq, hstep.combinations_eq, ht, List.length_append, Nat.add_assoc]
  split <;> rfl

end Run

namespace Table

variable {t : Table} {seeds : List Cube} {n : Nat}

theorem combinations_of_seedRows (h : t.rows.toList = (seeds.zipIdx 1).map seedRow) :
    t.combinations = [] := by
  rw [combinations, List.filterMap_eq_nil_iff]
  intro row hrow
  rw [Row.parents?, (of_mem_seedRows h hrow).2.1]

theorem size_of_seedRows (h : t.rows.toList = (seeds.zipIdx 1).map seedRow) :
    t.size = seeds.length := by
  rw [size, ← Array.length_toList, h, List.length_map, List.length_zipIdx]

theorem ledger_run (hlength : ∀ c ∈ seeds, c.length = n) (hnodup : seeds.Nodup)
    (h : t.rows.toList = (seeds.zipIdx 1).map seedRow) (exhaustive : Bool) :
    (t.run exhaustive).Ledger ∧ (t.run exhaustive).table.Fresh := by
  have huniform := uniform_of_seedRows h n hlength
  have hfresh := Fresh.of_seedRows hnodup h
  have hrun := Run.complete_induction (P := fun r => Run.Reachable t r ∧ r.Ledger) ?_
    (Run.start t exhaustive) ⟨.start exhaustive, .start (combinations_of_seedRows h) exhaustive⟩
  · exact ⟨hrun.1.2, hfresh.of_reachable hrun.1.1⟩
  · intro r r' hnext ⟨hr, hledger⟩
    exact ⟨hr.next hnext, hledger.next n (hr.uniform n huniform)
      (hfresh.of_reachable hr).numbered hr.inner_le_outer hnext⟩

end Table

end CubeCover
