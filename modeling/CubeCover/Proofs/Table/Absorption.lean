import CubeCover.Proofs.Table.Derivation
import CubeCover.Proofs.Table.Primes

/-! Absorption. An active row is appended only if no active row covers its cube, and then all active
rows that this cube covers are cancelled, whether they stand before or after the two rows that are
combined. Seeds are compared with new rows alone, so that only a seed may lie in a seed. -/
namespace CubeCover

namespace Table

/-- No active row covers the cube of another one, unless both are seeds. -/
def Unnested (t : Table) : Prop :=
  ∀ (i j : Nat) (a b : Row), i ≠ j → t.rows[i]? = some a → t.rows[j]? = some b →
    a.isActive = true → b.isActive = true → a.cube.covers b.cube = true →
    a.isSeed = true ∧ b.isSeed = true

variable {t t' : Table} {seeds : List Cube} {outer inner : Nat} {a b : Row}

theorem Combined.getElem?_of_active (h : Combined t outer inner a b t') {i : Nat} {row : Row}
    (hrow : t'.rows[i]? = some row) (hactive : row.isActive = true) :
    t.rows[i]? = some row ∨ i = t.size := by
  -- a step makes no row active but the one that it appends
  cases h.rowAfter hrow with
  | kept hold => exact Or.inl hold
  | cancelled => exact absurd hactive (by simp [Row.cancel, Row.isActive])
  | added hi => exact Or.inr hi
  | absorbed hi => exact Or.inr hi

theorem Combined.apart_of_new (h : Combined t outer inner a b t') {i : Nat} {row new : Row}
    (hi : i < t.size) (hrow : t'.rows[i]? = some row) (hactive : row.isActive = true)
    (hnew : t'.rows[t.size]? = some new) (hnewactive : new.isActive = true) :
    Cube.Apart row.cube new.cube := by
  have hend : t.rows[t.size]? = none := Array.getElem?_eq_none (Nat.le_refl _)
  cases h with
  | unchanged hne => exact absurd (hend.symm.trans hnew) (by simp)
  | absorbed first hone hfirst =>
    -- the consensus that an old row covers is cancelled from the start
    rw [Array.getElem?_push, if_pos (show t.size = t.rows.size from rfl)] at hnew
    obtain rfl := Option.some.inj hnew
    exact absurd hnewactive (by simp [consensusRow, Row.isActive])
  | added hone hnone =>
    rw [getElem?_map_push, if_pos rfl] at hnew
    obtain rfl := Option.some.inj hnew
    rw [getElem?_map_push, if_neg (Nat.ne_of_lt hi)] at hrow
    obtain ⟨old, hold, rfl⟩ := Option.map_eq_some_iff.mp hrow
    -- the row was active before the step, and the step has not cancelled it
    rw [isActive_cancelIfCovered, Bool.and_eq_true, Bool.not_eq_true'] at hactive
    rw [cube_cancelIfCovered]
    exact ⟨hnone old (mem_toList_of_getElem? hold) hactive.1, hactive.2⟩

namespace Unnested

theorem combined (h : t.Unnested) (hstep : Combined t outer inner a b t') : t'.Unnested := by
  intro i j c d hij hc hd hactivec hactived hcov
  rcases hstep.getElem?_of_active hc hactivec with holdc | hi
  · rcases hstep.getElem?_of_active hd hactived with holdd | hj
    · exact h i j c d hij holdc holdd hactivec hactived hcov
    · -- an old row does not cover the new one
      have hlt : i < t.size := lt_size_of_getElem? holdc
      have hapart := hstep.apart_of_new hlt hc hactivec (hj ▸ hd) hactived
      exact absurd (hapart.1.symm.trans hcov) (by decide)
  · rcases hstep.getElem?_of_active hd hactived with holdd | hj
    · -- nor does the new one cover an old row
      have hlt : j < t.size := lt_size_of_getElem? holdd
      have hapart := hstep.apart_of_new hlt hd hactived (hi ▸ hc) hactivec
      exact absurd (hapart.2.symm.trans hcov) (by decide)
    · exact absurd (hi.trans hj.symm) hij

theorem of_seedRows (h : t.rows.toList = (seeds.zipIdx 1).map seedRow) : t.Unnested := by
  have hseed (i : Nat) (row : Row) (hrow : t.rows[i]? = some row) : row.isSeed = true :=
    List.isEmpty_iff.mpr (of_mem_seedRows h (mem_toList_of_getElem? hrow)).2.1
  intro i j a b _ ha hb _ _ _
  exact ⟨hseed i a ha, hseed j b hb⟩

theorem of_reachable {r : Run} (h : t.Unnested) (hr : Run.Reachable t r) : r.table.Unnested :=
  hr.table_induction (P := Unnested) h fun _ _ _ _ _ _ _ _ _ hstep ht => ht.combined hstep

end Unnested

theorem Derivation.lt_of_isSeed (h : t.Derivation seeds) {i : Nat} {row : Row}
    (hrow : t.rows[i]? = some row) (hseed : row.isSeed = true) : i < seeds.length := by
  -- every later row names its parents
  by_contra hi
  obtain ⟨outer, inner, a, b, hformed⟩ := h.formed i row (Nat.le_of_not_lt hi) hrow
  rw [Row.isSeed, hformed.formedBy] at hseed
  exact absurd hseed (by simp)

end Table

/-- In every state of any number of runs, if one of two active rows covers the other one or is equal to
it, then both are seeds. So if no seed covers another one, no two survivors are equal, and none
covers another one. -/
theorem active_rows_nest_only_as_seeds (seeds : List Cube) (hne : seeds ≠ []) (n : Nat)
    (hlength : ∀ c ∈ seeds, c.length = n) :
    ∃ t, Table.ofSeeds seeds = .ok t ∧ ∀ r, Run.Reachable t r →
      (∀ (i j : Nat) (a b : Row), i ≠ j → r.table.rows[i]? = some a → r.table.rows[j]? = some b →
        a.isActive = true → b.isActive = true → a.cube.covers b.cube = true →
        (i < seeds.length ∧ a.isSeed = true) ∧ (j < seeds.length ∧ b.isSeed = true)) ∧
      (seeds.Pairwise Cube.Apart →
        r.table.survivors.Nodup ∧
        ∀ c ∈ r.table.survivors, ∀ d ∈ r.table.survivors, c.covers d = true → c = d) := by
  obtain ⟨t, hseeds, hrows⟩ := Table.ofSeeds_spec seeds hne n hlength
  refine ⟨t, hseeds, ?_⟩
  intro r hr
  constructor
  · intro i j a b hij ha hb hactivea hactiveb hcov
    have hder := (Table.Derivation.of_seedRows hrows).of_reachable hr
    have hnest := (Table.Unnested.of_seedRows hrows).of_reachable hr
    obtain ⟨hseeda, hseedb⟩ := hnest i j a b hij ha hb hactivea hactiveb hcov
    exact ⟨⟨hder.lt_of_isSeed ha hseeda, hseeda⟩, ⟨hder.lt_of_isSeed hb hseedb, hseedb⟩⟩
  · intro hapart
    have hkept := Table.pairwise_apart_of_seedRows n hlength hapart hrows hr
    refine ⟨Cube.nodup_of_pairwise_apart hkept, ?_⟩
    intro c hc d hd hcov
    exact Cube.eq_of_pairwise_apart hkept hc hd hcov

/-- After an exhaustive run on three cubes the second one still lies in the first one: both are active,
and they are seeds. -/
theorem active_rows_nest_as_first_seeds :
    ∃ t, Table.ofSeeds [⟨[.one, .free]⟩, ⟨[.one, .zero]⟩, ⟨[.zero, .one]⟩] = .ok t ∧
      ∃ a b, (t.run true).table.rows[0]? = some a ∧ (t.run true).table.rows[1]? = some b ∧
        a.isActive = true ∧ b.isActive = true ∧ a.cube.covers b.cube = true ∧
        a.isSeed = true ∧ b.isSeed = true := by
  obtain ⟨t, ht, h⟩ := active_rows_nest_only_as_seeds
    [⟨[.one, .free]⟩, ⟨[.one, .zero]⟩, ⟨[.zero, .one]⟩] (by decide) 2 (by decide)
  have hnest := (h (t.run true) (t.reachable_run true)).1
  have hrows : (t.run true).table.rows[0]? = some ⟨1, ⟨[.one, .free]⟩, [], none⟩ ∧
      (t.run true).table.rows[1]? = some ⟨2, ⟨[.one, .zero]⟩, [], none⟩ := by
    obtain rfl := Except.ok.inj ht
    constructor
    · exact beq_iff_eq.mp (Run.complete_check 10
        (fun r => r.table.rows[0]? == some ⟨1, ⟨[.one, .free]⟩, [], none⟩) (by decide))
    · exact beq_iff_eq.mp (Run.complete_check 10
        (fun r => r.table.rows[1]? == some ⟨2, ⟨[.one, .zero]⟩, [], none⟩) (by decide))
  obtain ⟨⟨_, hseeda⟩, ⟨_, hseedb⟩⟩ :=
    hnest 0 1 _ _ (by decide) hrows.1 hrows.2 (by decide) (by decide) (by decide)
  exact ⟨t, ht, _, _, hrows.1, hrows.2, by decide, by decide, by decide, hseeda, hseedb⟩

end CubeCover
