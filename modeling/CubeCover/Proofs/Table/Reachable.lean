import CubeCover.Proofs.Table.Step
import CubeCover.Table.Consensus

/-! The states that runs on a table pass through, and the ways in which one state follows another.
What every step keeps holds of all of them. -/
namespace CubeCover

namespace Run

variable {t : Table} {r r' : Run}

/-- The states of any number of runs, one after the other; each run may be exhaustive or not. -/
inductive Reachable (t : Table) : Run → Prop
  | start (exhaustive : Bool) : Reachable t (.start t exhaustive)
  | next {r r' : Run} (hr : Reachable t r) (h : r.next? = some r') : Reachable t r'
  | again {r : Run} (exhaustive : Bool) (hr : Reachable t r) (hend : r.next? = none) :
      Reachable t (.start r.table exhaustive)

/-- The three ways of a run: the next outer row, a cancelled inner row, an active inner row. -/
theorem next?_cases (h : r.next? = some r') :
    (r.inner = 0 ∧ r.outer + 1 + r.tail < r.table.size ∧
      r' = { r with
        outer := r.outer + 1
        inner := if r.table.isActiveAt (r.outer + 1) then r.outer + 1 else 0 }) ∨
    (∃ inner, r.inner = inner + 1 ∧ r.table.isActiveAt inner = false ∧
      r' = { r with inner := inner }) ∨
    (∃ inner, r.inner = inner + 1 ∧ r.table.isActiveAt inner = true ∧
      r' = { r with
        table := (r.table.combine r.outer inner).table
        inner := inner
        trail := (r.table.combine r.outer inner).events.reverse ++ r.trail
        fault? := (r.table.combine r.outer inner).fault? }) := by
  unfold next? at h
  split at h
  · exact absurd h (by simp)
  · split at h
    · rename_i hinner
      unfold nextOuter? at h
      simp only at h
      split at h
      · rename_i hsize
        exact Or.inl ⟨hinner, hsize, (Option.some.inj h).symm⟩
      · exact absurd h (by simp)
    · rename_i inner hinner
      have hr' := (Option.some.inj h).symm
      unfold visit at hr'
      split at hr'
      · rename_i hactive
        exact Or.inr (Or.inr ⟨inner, hinner, hactive, hr'⟩)
      · rename_i hactive
        exact Or.inr (Or.inl ⟨inner, hinner, by simpa using hactive, hr'⟩)

theorem next?_eq_none (hfault : r.fault? = none) (h : r.next? = none) :
    r.inner = 0 ∧ r.table.size ≤ r.outer + 1 + r.tail := by
  unfold next? at h
  split at h
  · rename_i hsome
    exact absurd (hfault.symm.trans hsome) (by simp)
  · split at h
    · rename_i hinner
      refine ⟨hinner, ?_⟩
      unfold nextOuter? at h
      simp only at h
      split at h
      · exact absurd h (by simp)
      · rename_i hsize
        omega
    · exact absurd h (by simp)

theorem table_next? (h : r.next? = some r') :
    (r'.table = r.table ∧ r'.fault? = r.fault?) ∨
      ∃ inner, r'.table = (r.table.combine r.outer inner).table ∧
        r'.fault? = (r.table.combine r.outer inner).fault? := by
  -- only an active inner row is combined with the outer one
  rcases next?_cases h with ⟨_, _, rfl⟩ | ⟨_, _, _, rfl⟩ | ⟨inner, _, _, rfl⟩
  · exact Or.inl ⟨rfl, rfl⟩
  · exact Or.inl ⟨rfl, rfl⟩
  · exact Or.inr ⟨inner, rfl, rfl⟩

theorem inner_le_outer_next? (h : r.next? = some r') (hle : r.inner ≤ r.outer) :
    r'.inner ≤ r'.outer := by
  rcases next?_cases h with ⟨_, _, rfl⟩ | ⟨inner, hinner, _, rfl⟩ | ⟨inner, hinner, _, rfl⟩
  · dsimp only
    split <;> omega
  · dsimp only
    omega
  · dsimp only
    omega

/-- A step of a run keeps the table, or it combines the outer row with a row before it. -/
theorem combined_next? (h : r.next? = some r') (hle : r.inner ≤ r.outer) :
    r'.table = r.table ∨ ∃ inner a b, inner < r.outer ∧ r.table.rows[inner]? = some a ∧
      r.table.rows[r.outer]? = some b ∧ Table.Combined r.table r.outer inner a b r'.table := by
  rcases next?_cases h with ⟨_, _, rfl⟩ | ⟨_, _, _, rfl⟩ | ⟨inner, hinner, _, rfl⟩
  · exact Or.inl rfl
  · exact Or.inl rfl
  · refine (Table.combine_cases r.table r.outer inner).imp_right ?_
    rintro ⟨a, b, ha, hb, hcombined⟩
    exact ⟨inner, a, b, by omega, ha, hb, hcombined⟩

theorem exhaustive_next? (h : r.next? = some r') : r'.exhaustive = r.exhaustive := by
  rcases next?_cases h with ⟨_, _, rfl⟩ | ⟨_, _, _, rfl⟩ | ⟨_, _, _, rfl⟩ <;> rfl

/-- Whether the rows at two places have had their turn together. -/
def Passed (r : Run) (outer inner : Nat) : Prop :=
  outer < r.outer ∨ (outer = r.outer ∧ r.inner ≤ inner)

theorem passed_next? {outer inner : Nat} (h : r.next? = some r') (hpassed : r.Passed outer inner) :
    r'.Passed outer inner := by
  rw [Passed] at hpassed ⊢
  rcases next?_cases h with ⟨_, _, rfl⟩ | ⟨_, _, _, rfl⟩ | ⟨_, _, _, rfl⟩
  · exact Or.inl (by dsimp only; omega)
  · dsimp only
    omega
  · dsimp only
    omega

/-- A step lets no pair of active rows pass, or it combines the pair whose turn it is. -/
theorem turn_cases (h : r.next? = some r') :
    (r'.table = r.table ∧ ∀ i j : Nat, i < j → r.table.isActiveAt i = true →
      r.table.isActiveAt j = true → r'.Passed j i → r.Passed j i) ∨
    ∃ inner, r.inner = inner + 1 ∧ r.table.isActiveAt inner = true ∧ r'.outer = r.outer ∧
      r'.inner = inner ∧ r'.table = (r.table.combine r.outer inner).table := by
  rcases next?_cases h with ⟨hinner, _, rfl⟩ | ⟨inner, hinner, hcancelled, rfl⟩ |
      ⟨inner, hinner, hactive, rfl⟩
  · refine Or.inl ⟨rfl, ?_⟩
    intro i j hij _ hj hpassed
    rw [Passed] at hpassed ⊢
    dsimp only at hpassed
    by_cases hnew : j = r.outer + 1
    · -- the new outer row is active, so all of its inner rows are left
      rw [← hnew, if_pos hj] at hpassed
      omega
    · omega
  · refine Or.inl ⟨rfl, ?_⟩
    intro i j _ hi _ hpassed
    have hne : i ≠ inner := by
      rintro rfl
      exact absurd (hi.symm.trans hcancelled) (by decide)
    rw [Passed] at hpassed ⊢
    dsimp only at hpassed
    omega
  · exact Or.inr ⟨inner, hinner, hactive, rfl, rfl, rfl⟩

/-- Inner rows are left only for an outer row that was active when its turn came. -/
theorem outer_next? (h : r.next? = some r') :
    r'.inner = 0 ∨ r.table.isActiveAt r'.outer = true ∨ (r'.outer = r.outer ∧ r.inner ≠ 0) := by
  rcases next?_cases h with ⟨_, _, rfl⟩ | ⟨_, hinner, _, rfl⟩ | ⟨_, hinner, _, rfl⟩
  · dsimp only
    split
    · rename_i hactive
      exact Or.inr (Or.inl hactive)
    · exact Or.inl rfl
  · exact Or.inr (Or.inr ⟨rfl, by omega⟩)
  · exact Or.inr (Or.inr ⟨rfl, by omega⟩)

/-- What every step keeps holds at the end of a run, where no state follows. -/
theorem complete_induction {P : Run → Prop}
    (hstep : ∀ r r' : Run, r.next? = some r' → P r → P r') (r : Run) (hr : P r) :
    P r.complete ∧ r.complete.next? = none := by
  -- the induction is on the steps that are left, as the run itself recurs
  induction r using complete.induct with
  | case1 r hend =>
    rw [complete]
    split
    · exact ⟨hr, hend⟩
    · rename_i r' h
      exact absurd (hend.symm.trans h) (by simp)
  | case2 r r' h ih =>
    rw [complete]
    split
    · rename_i hend
      exact absurd (h.symm.trans hend) (by simp)
    · rename_i r'' h'
      have hsame : r' = r'' := Option.some.inj (h.symm.trans h')
      exact hsame ▸ ih (hstep r r' h hr)

/-- The state after some steps, if the run takes so many. -/
def after (r : Run) : Nat → Option Run
  | 0 => some r
  | k + 1 => (r.after k).bind next?

theorem after_succ_eq_some_iff (k : Nat) :
    r.after (k + 1) = some r' ↔ ∃ r₀, r.after k = some r₀ ∧ r₀.next? = some r' :=
  Option.bind_eq_some_iff

/-- The end of a run comes after finitely many steps. -/
theorem exists_after_complete (r : Run) : ∃ k, r.after k = some r.complete := by
  refine (complete_induction (P := fun r' => ∃ k, r.after k = some r') ?_ r ⟨0, rfl⟩).1
  intro r₁ r₂ hnext ⟨k, hk⟩
  exact ⟨k + 1, (after_succ_eq_some_iff k).mpr ⟨r₁, hk, hnext⟩⟩

theorem complete_next? (h : r.next? = some r') : r.complete = r'.complete := by
  rw [complete]
  split
  · rename_i hend
    exact absurd (h.symm.trans hend) (by simp)
  · rename_i r'' h'
    rw [Option.some.inj (h.symm.trans h')]

theorem complete_after {k : Nat} (hk : r.after k = some r') : r.complete = r'.complete := by
  induction k generalizing r' with
  | zero => rw [Option.some.inj hk]
  | succ k ih =>
    obtain ⟨r₀, hr₀, hnext⟩ := (after_succ_eq_some_iff k).mp hk
    exact (ih hr₀).trans (complete_next? hnext)

/-- A state that steps lead to and that none follows is the end of the run. -/
theorem complete_of_after {k : Nat} (hk : r.after k = some r') (hend : r'.next? = none) :
    r.complete = r' := by
  rw [complete_after hk, complete]
  split
  · rfl
  · rename_i h
    exact absurd (hend.symm.trans h) (by simp)

/-- What the state after some steps passes, the end of the run passes if no state follows. -/
theorem complete_check (k : Nat) (p : Run → Bool)
    (h : (r.after k).any (fun r' => r'.next?.isNone && p r') = true) : p r.complete = true := by
  obtain ⟨r', hr', hcheck⟩ := (Option.any_eq_true _ _).mp h
  rw [Bool.and_eq_true, Option.isNone_iff_eq_none] at hcheck
  rw [complete_of_after hr' hcheck.1]
  exact hcheck.2

namespace Reachable

theorem complete (hr : Reachable t r) : Reachable t r.complete ∧ r.complete.next? = none :=
  complete_induction (fun _ _ h hr => hr.next h) r hr

theorem trans (hr : Reachable t r) (hend : r.next? = none) (h : Reachable r.table r') :
    Reachable t r' := by
  induction h with
  | start exhaustive => exact hr.again exhaustive hend
  | next _ hnext ih => exact ih.next hnext
  | again exhaustive _ hend' ih => exact ih.again exhaustive hend'

theorem inner_le_outer (hr : Reachable t r) : r.inner ≤ r.outer := by
  induction hr with
  | start exhaustive => exact Nat.le_refl _
  | next hr hnext ih => exact inner_le_outer_next? hnext ih
  | again exhaustive hr hend ih => exact Nat.le_refl _

/-- As long as inner rows are left, the outer row is in the table. -/
theorem outer_lt_size (hr : Reachable t r) : r.inner = 0 ∨ r.outer < r.table.size := by
  induction hr with
  | start exhaustive => exact Or.inl rfl
  | @next r r' hr hnext ih =>
    rcases next?_cases hnext with ⟨_, hsize, rfl⟩ | ⟨inner, hinner, _, rfl⟩ | ⟨inner, hinner, _, rfl⟩
    · exact Or.inr (Nat.lt_of_le_of_lt (Nat.le_add_right _ _) hsize)
    · exact Or.inr (ih.resolve_left (by omega))
    · apply Or.inr
      have hlt := ih.resolve_left (by omega)
      rcases Table.combine_cases r.table r.outer inner with hsame | ⟨_, _, _, _, hstep⟩
      · exact hsame.symm ▸ hlt
      · exact Nat.lt_of_lt_of_le hlt hstep.size_le
  | again exhaustive hr hend ih => exact Or.inl rfl

/-- What combining a row with an earlier one keeps holds of the tables of all states. -/
theorem table_induction {P : Table → Prop} (hstart : P t)
    (hstep : ∀ (t t' : Table) (outer inner : Nat) (a b : Row), inner < outer →
      t.rows[inner]? = some a → t.rows[outer]? = some b → Table.Combined t outer inner a b t' →
      P t → P t')
    (hr : Reachable t r) : P r.table := by
  induction hr with
  | start exhaustive => exact hstart
  | @next r r' hr hnext ih =>
    rcases combined_next? hnext hr.inner_le_outer with hsame | ⟨inner, a, b, hlt, ha, hb, h⟩
    · exact hsame ▸ ih
    · exact hstep _ _ _ inner a b hlt ha hb h ih
  | again exhaustive hr hend ih => exact ih

/-- On cubes of one length, what combining two rows of the table keeps holds of the tables of all
states. -/
theorem combined_induction {P : Table → Prop} (n : Nat) (ht : t.Uniform n) (hstart : P t)
    (hstep : ∀ (t t' : Table) (outer inner : Nat) (a b : Row), t.Uniform n → a ∈ t.rows.toList →
      b ∈ t.rows.toList → Table.Combined t outer inner a b t' → P t → P t')
    (hr : Reachable t r) : r.table.Uniform n ∧ P r.table := by
  apply hr.table_induction (P := fun t => t.Uniform n ∧ P t) ⟨ht, hstart⟩
  intro t t' outer inner a b _ ha hb h ih
  have hmema := Table.mem_toList_of_getElem? ha
  have hmemb := Table.mem_toList_of_getElem? hb
  constructor
  · exact Table.uniform_of_combined n ih.1 hmema hmemb h
  · exact hstep _ _ _ _ a b ih.1 hmema hmemb h ih.2

theorem uniform (n : Nat) (ht : t.Uniform n) (hr : Reachable t r) : r.table.Uniform n :=
  (hr.combined_induction (P := fun _ => True) n ht trivial fun _ _ _ _ _ _ _ _ _ _ _ => trivial).1

theorem fault?_eq_none (n : Nat) (ht : t.Uniform n) (hr : Reachable t r) : r.fault? = none := by
  induction hr with
  | start exhaustive => rfl
  | @next r r' hr h ih =>
    rcases table_next? h with ⟨_, hfault⟩ | ⟨inner, _, hfault⟩
    · rw [hfault, ih]
    · rw [hfault, Table.fault?_combine n (hr.uniform n ht) r.outer inner]
  | again exhaustive hr hend ih => rfl

end Reachable

end Run

namespace Table

/-- The table after some runs, one after the other, each exhaustive or not. -/
def runs (t : Table) (modes : List Bool) : Table :=
  modes.foldl (fun t exhaustive => (t.run exhaustive).table) t

theorem reachable_run (t : Table) (exhaustive : Bool) : Run.Reachable t (t.run exhaustive) :=
  (Run.Reachable.start exhaustive).complete.1

theorem reachable_start_runs (t : Table) (modes : List Bool) (exhaustive : Bool) :
    Run.Reachable t (.start (t.runs modes) exhaustive) := by
  induction modes generalizing t with
  | nil => exact .start exhaustive
  | cons mode modes ih =>
    -- the later runs start from the table that the first one leaves
    have hrun := (Run.Reachable.start (t := t) mode).complete
    exact hrun.1.trans hrun.2 (ih (t.run mode).table)

/-- The row of a seed that stands at a place, where places count from one. -/
def seedRow (seed : Cube × Nat) : Row := ⟨Int.ofNat seed.2, seed.1, [], none⟩

theorem toList_foldl_append (t : Table) (cubes : List Cube) :
    (cubes.foldl (fun t cube => t.append cube [] none) t).rows.toList =
      t.rows.toList ++ (cubes.zipIdx (t.size + 1)).map seedRow := by
  induction cubes generalizing t with
  | nil => simp
  | cons cube cubes ih =>
    rw [List.foldl_cons, ih]
    simp [append, size, seedRow, nextNumber]

/-- Cubes of one length start a table, in which each of them has an active row. -/
theorem ofSeeds_spec (seeds : List Cube) (hne : seeds ≠ []) (n : Nat)
    (hlength : ∀ c ∈ seeds, c.length = n) :
    ∃ t, ofSeeds seeds = .ok t ∧ t.rows.toList = (seeds.zipIdx 1).map seedRow := by
  cases seeds with
  | nil => exact absurd rfl hne
  | cons first rest =>
    have hall : rest.all (·.length = first.length) = true := by
      rw [List.all_eq_true]
      intro c hc
      simp [hlength c (List.mem_cons_of_mem _ hc), hlength first List.mem_cons_self]
    refine ⟨(first :: rest).foldl (fun t cube => t.append cube [] none) empty, ?_, ?_⟩
    · simp only [ofSeeds, hall, if_true]
    · exact toList_foldl_append empty (first :: rest)

variable {t : Table} {seeds : List Cube}

theorem seedRows_of_ofSeeds (n : Nat) (hlength : ∀ c ∈ seeds, c.length = n)
    (h : ofSeeds seeds = .ok t) : t.rows.toList = (seeds.zipIdx 1).map seedRow := by
  have hne : seeds ≠ [] := by
    rintro rfl
    exact absurd h (by simp [ofSeeds])
  obtain ⟨t', ht', hrows⟩ := ofSeeds_spec seeds hne n hlength
  obtain rfl : t = t' := Except.ok.inj (h.symm.trans ht')
  exact hrows

theorem of_mem_seedRows (h : t.rows.toList = (seeds.zipIdx 1).map seedRow) {row : Row}
    (hrow : row ∈ t.rows.toList) :
    row.cube ∈ seeds ∧ row.formedBy = [] ∧ row.cancelledBy = none := by
  rw [h, List.mem_map] at hrow
  obtain ⟨seed, hseed, rfl⟩ := hrow
  exact ⟨List.fst_mem_of_mem_zipIdx hseed, rfl, rfl⟩

theorem survivors_of_seedRows (h : t.rows.toList = (seeds.zipIdx 1).map seedRow) :
    t.survivors = seeds := by
  have hactive : ∀ row ∈ t.rows.toList, row.isActive = true := by
    intro row hrow
    exact Option.isNone_iff_eq_none.mpr (of_mem_seedRows h hrow).2.2
  rw [survivors, activeRows, List.filter_eq_self.mpr hactive, h, List.map_map]
  have hcube : Row.cube ∘ seedRow = Prod.fst := rfl
  rw [hcube, List.zipIdx_map_fst]

theorem uniform_of_seedRows (h : t.rows.toList = (seeds.zipIdx 1).map seedRow) (n : Nat)
    (hlength : ∀ c ∈ seeds, c.length = n) : t.Uniform n := by
  intro row hrow
  exact hlength row.cube (of_mem_seedRows h hrow).1

end Table

end CubeCover
