import CubeCover.Proofs.Table.Closure
import CubeCover.Proofs.Table.Cover
import Mathlib.Data.List.Pairwise

/-! Exhaustive runs and prime implicants. After an exhaustive run no prime implicant of the seeds is
missing among the survivors, whatever runs came before. If no seed covers another one, then no
survivor ever does, and the survivors at the end are just the prime implicants. -/
namespace CubeCover

/-- Neither of two cubes covers the other. -/
def Cube.Apart (a b : Cube) : Prop := a.covers b = false ∧ b.covers a = false

instance : Std.Symm Cube.Apart := ⟨fun _ _ h => ⟨h.2, h.1⟩⟩

theorem Cube.eq_of_pairwise_apart {cubes : List Cube} (h : cubes.Pairwise Cube.Apart) {a b : Cube}
    (ha : a ∈ cubes) (hb : b ∈ cubes) (hcov : a.covers b = true) : a = b := by
  by_contra hne
  have hapart : Cube.Apart a b := h.forall ha hb hne
  rw [hapart.1] at hcov
  exact absurd hcov (by decide)

theorem Cube.nodup_of_pairwise_apart {cubes : List Cube} (h : cubes.Pairwise Cube.Apart) :
    cubes.Nodup := by
  apply h.imp
  intro a b hab heq
  rw [heq] at hab
  exact absurd (hab.1.symm.trans (Cube.covers_refl b)) (by decide)

/-- A point covers no other point. -/
theorem Cube.pairwise_apart_of_points {cubes : List Cube} (hnodup : cubes.Nodup)
    (hpoints : ∀ c ∈ cubes, c.IsPoint) : cubes.Pairwise Cube.Apart := by
  apply List.Pairwise.imp_of_mem _ hnodup
  intro a b ha hb hne
  constructor
  · rw [Bool.eq_false_iff, ne_eq, covers_iff_eq_of_isPoint a b (hpoints a ha)]
    exact hne
  · rw [Bool.eq_false_iff, ne_eq, covers_iff_eq_of_isPoint b a (hpoints b hb)]
    exact hne.symm

namespace Table

variable {t t' : Table} {outer inner : Nat} {a b : Row}

theorem Combined.pairwise_apart (h : Combined t outer inner a b t')
    (hapart : t.survivors.Pairwise Cube.Apart) : t'.survivors.Pairwise Cube.Apart := by
  rcases h.survivors_cases with ⟨hsame, _⟩ | ⟨_, hnone, hnew⟩
  · rw [hsame]
    exact hapart
  · -- no survivor covers the new cube, and those that it covers have left
    rw [hnew, List.pairwise_append]
    refine ⟨hapart.filter _, List.pairwise_singleton _ _, ?_⟩
    intro s hs c hc
    rw [List.mem_filter, Bool.not_eq_true'] at hs
    rw [List.mem_singleton.mp hc]
    exact ⟨hnone s hs.1, hs.2⟩

theorem pairwise_apart_of_reachable {r : Run} (n : Nat) (ht : t.Uniform n)
    (hapart : t.survivors.Pairwise Cube.Apart) (hr : Run.Reachable t r) :
    r.table.survivors.Pairwise Cube.Apart := by
  exact (hr.combined_induction (P := fun t => t.survivors.Pairwise Cube.Apart) n ht hapart
    fun _ _ _ _ _ _ _ _ _ hstep hp => hstep.pairwise_apart hp).2

theorem pairwise_apart_of_seedRows {r : Run} (n : Nat) {seeds : List Cube}
    (hlength : ∀ c ∈ seeds, c.length = n) (hapart : seeds.Pairwise Cube.Apart)
    (hrows : t.rows.toList = (seeds.zipIdx 1).map seedRow) (hr : Run.Reachable t r) :
    r.table.survivors.Pairwise Cube.Apart := by
  rw [← survivors_of_seedRows hrows] at hapart
  exact pairwise_apart_of_reachable n (uniform_of_seedRows hrows n hlength) hapart hr

/-- An exhaustive run on seeds of which none covers another one leaves their prime implicants. -/
theorem mem_survivors_run_iff (n : Nat) {seeds : List Cube} (hlength : ∀ c ∈ seeds, c.length = n)
    (hapart : seeds.Pairwise Cube.Apart) (hrows : t.rows.toList = (seeds.zipIdx 1).map seedRow)
    (c : Cube) : c ∈ (t.run true).table.survivors ↔ Cube.IsPrimeImplicant seeds c := by
  have ht := uniform_of_seedRows hrows n hlength
  have hlast := t.reachable_run true
  have hrep := (Represents.of_seedRows hlength hrows).of_reachable hlast
  have hclosed := consensusClosed_run t n ht
  have hkept := pairwise_apart_of_seedRows n hlength hapart hrows hlast
  constructor
  · exact Cube.isPrimeImplicant_of_mem seeds _ hclosed hrep.isImplicant_iff
      (fun a ha b hb hcov => Cube.eq_of_pairwise_apart hkept ha hb hcov) c
  · exact Cube.mem_of_isPrimeImplicant seeds _ hclosed hrep.isImplicant_iff c

end Table

/-- After any runs of which the last one is exhaustive, every prime implicant of the seeds is a
survivor. If no seed covers another one, the survivors are the prime implicants, each of them
once. -/
theorem prime_implicants_survive_exhaustive_run (seeds : List Cube) (hne : seeds ≠ []) (n : Nat)
    (hlength : ∀ c ∈ seeds, c.length = n) (modes : List Bool) :
    ∃ t, Table.ofSeeds seeds = .ok t ∧
      ((t.runs modes).run true).fault? = none ∧
      (∀ c, Cube.IsPrimeImplicant seeds c → c ∈ ((t.runs modes).run true).table.survivors) ∧
      (seeds.Pairwise Cube.Apart →
        (∀ c, c ∈ ((t.runs modes).run true).table.survivors ↔ Cube.IsPrimeImplicant seeds c) ∧
        ((t.runs modes).run true).table.survivors.Nodup) := by
  obtain ⟨t, hseeds, hrows⟩ := Table.ofSeeds_spec seeds hne n hlength
  have ht := Table.uniform_of_seedRows hrows n hlength
  have hstart := Table.reachable_start_runs t modes true
  have hlast : Run.Reachable t ((t.runs modes).run true) := hstart.complete.1
  have hrep := (Table.Represents.of_seedRows hlength hrows).of_reachable hlast
  have hclosed := Table.consensusClosed_run (t.runs modes) n (hstart.uniform n ht)
  have hprime (c : Cube) (hc : Cube.IsPrimeImplicant seeds c) :
      c ∈ ((t.runs modes).run true).table.survivors :=
    Cube.mem_of_isPrimeImplicant seeds _ hclosed hrep.isImplicant_iff c hc
  refine ⟨t, hseeds, hlast.fault?_eq_none n ht, hprime, ?_⟩
  intro hapart
  have hkept : ((t.runs modes).run true).table.survivors.Pairwise Cube.Apart :=
    Table.pairwise_apart_of_reachable n ht
      ((Table.survivors_of_seedRows hrows).symm ▸ hapart) hlast
  refine ⟨fun c => ⟨?_, hprime c⟩, Cube.nodup_of_pairwise_apart hkept⟩
  intro hc
  exact Cube.isPrimeImplicant_of_mem seeds _ hclosed hrep.isImplicant_iff
    (fun a ha b hb hcov => Cube.eq_of_pairwise_apart hkept ha hb hcov) c hc

/-- Two cubes that overlap in no point but have a consensus, run in the default way first. -/
theorem prime_implicants_survive_two_seeds :
    ∃ t, Table.ofSeeds [⟨[.one, .one, .free]⟩, ⟨[.zero, .free, .one]⟩] = .ok t ∧
      (∀ c, c ∈ ((t.runs [false, true]).run true).table.survivors ↔
        Cube.IsPrimeImplicant [⟨[.one, .one, .free]⟩, ⟨[.zero, .free, .one]⟩] c) ∧
      ((t.runs [false, true]).run true).table.survivors.Nodup := by
  obtain ⟨t, ht, _, _, hprimes⟩ := prime_implicants_survive_exhaustive_run
    [⟨[.one, .one, .free]⟩, ⟨[.zero, .free, .one]⟩] (by decide) 3 (by decide) [false, true]
  have hapart : List.Pairwise Cube.Apart
      [⟨[.one, .one, .free]⟩, ⟨[.zero, .free, .one]⟩] := by
    simp [Cube.Apart, Cube.covers, Cube.coversDigits, Digit.covers]
  exact ⟨t, ht, hprimes hapart⟩

end CubeCover
