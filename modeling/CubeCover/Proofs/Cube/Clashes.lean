import CubeCover.Cube.Covering
import CubeCover.Proofs.Cube.Points
import Mathlib.Data.List.Nodup
import Mathlib.Data.List.Perm.Subperm
import Mathlib.Data.List.ProdSigma

/-! How many pairs of cubes conflict at one place. Of the nine pairs of digits two conflict. So there are
`7 ^ n` pairs of cubes of length `n` without a conflict, and `2 * n * 7 ^ (n - 1)` with one. -/
namespace CubeCover

namespace Cube

/-- The pairs of digits that conflict, or those that do not. -/
def digitPairs (conflict : Bool) : List (Digit × Digit) :=
  ([Digit.zero, .one, .free].product [Digit.zero, .one, .free]).filter fun pair =>
    pair.1.conflicts pair.2 == conflict

/-- Puts one of the pairs of digits in front of each pair of lists. -/
def extendPairs (conflict : Bool) (pairs : List (List Digit × List Digit)) :
    List (List Digit × List Digit) :=
  (digitPairs conflict).flatMap fun d => pairs.map fun pair => (d.1 :: pair.1, d.2 :: pair.2)

/-- The pairs of lists of digits of a length that conflict at so many places. -/
def clashing : (n k : Nat) → List (List Digit × List Digit)
  | 0, 0 => [([], [])]
  | 0, _ + 1 => []
  | n + 1, 0 => extendPairs false (clashing n 0)
  | n + 1, k + 1 => extendPairs false (clashing n (k + 1)) ++ extendPairs true (clashing n k)

theorem mem_digitPairs (a b : Digit) : (a, b) ∈ digitPairs (a.conflicts b) := by
  cases a <;> cases b <;> decide

theorem mem_extendPairs {a b : Digit} {as bs : List Digit}
    {pairs : List (List Digit × List Digit)} (h : (as, bs) ∈ pairs) :
    (a :: as, b :: bs) ∈ extendPairs (a.conflicts b) pairs := by
  rw [extendPairs, List.mem_flatMap]
  exact ⟨(a, b), mem_digitPairs a b, List.mem_map.mpr ⟨(as, bs), h, rfl⟩⟩

theorem mem_clashing (as bs : List Digit) (hlength : as.length = bs.length) :
    (as, bs) ∈ clashing as.length (conflicts ⟨as⟩ ⟨bs⟩) := by
  induction as generalizing bs with
  | nil =>
    rw [List.eq_nil_of_length_eq_zero hlength.symm]
    exact List.mem_singleton_self _
  | cons a as ih =>
    cases bs with
    | nil => exact absurd hlength (by simp)
    | cons b bs =>
      have hrest := mem_extendPairs (a := a) (b := b) (ih bs (Nat.succ.inj hlength))
      rw [conflicts_cons, List.length_cons]
      cases hab : a.conflicts b with
      | true =>
        rw [hab] at hrest
        rw [if_pos rfl, Nat.add_comm 1]
        exact List.mem_append_right _ hrest
      | false =>
        rw [hab] at hrest
        rw [if_neg Bool.false_ne_true, Nat.zero_add]
        -- the number of conflicts in the tails stays the number of the whole
        cases hcount : conflicts ⟨as⟩ ⟨bs⟩ with
        | zero =>
          rw [hcount] at hrest
          exact hrest
        | succ k =>
          rw [hcount] at hrest
          exact List.mem_append_left _ hrest

theorem length_extendPairs (conflict : Bool) (pairs : List (List Digit × List Digit)) :
    (extendPairs conflict pairs).length = (if conflict then 2 else 7) * pairs.length := by
  have hdigits : (digitPairs conflict).length = if conflict then 2 else 7 := by
    cases conflict <;> rfl
  rw [extendPairs, List.length_flatMap, ← hdigits]
  simp only [List.length_map, List.map_const', List.sum_replicate_nat]

theorem length_clashing_zero (n : Nat) : (clashing n 0).length = Nat.pow 7 n := by
  induction n with
  | zero => rfl
  | succ n ih =>
    calc (clashing (n + 1) 0).length
        = 7 * (clashing n 0).length := length_extendPairs false _
      _ = Nat.pow 7 n * 7 := by rw [ih, Nat.mul_comm]
      _ = Nat.pow 7 (n + 1) := rfl

theorem length_clashing_one (n : Nat) :
    (clashing n 1).length = 2 * (n * Nat.pow 7 (n - 1)) := by
  induction n with
  | zero => rfl
  | succ n ih =>
    -- the conflict stands among the other digits, or it is the first pair of digits
    have hsplit : (clashing (n + 1) 1).length = 7 * (clashing n 1).length + 2 * Nat.pow 7 n := by
      rw [clashing, List.length_append, length_extendPairs, length_extendPairs, length_clashing_zero]
      rfl
    have hpow : 7 * (n * Nat.pow 7 (n - 1)) = n * Nat.pow 7 n := by
      cases n with
      | zero => rfl
      | succ n =>
        calc 7 * ((n + 1) * Nat.pow 7 n)
            = (n + 1) * Nat.pow 7 n * 7 := Nat.mul_comm _ _
          _ = (n + 1) * Nat.pow 7 (n + 1) := Nat.mul_assoc _ _ _
    rw [hsplit, ih, Nat.add_sub_cancel, Nat.add_mul, Nat.one_mul, ← hpow]
    omega

/-- There are no more different pairs of cubes with one conflict. -/
theorem length_le_of_clashes {n : Nat} {pairs : List (Cube × Cube)} (hnodup : pairs.Nodup)
    (h : ∀ pair ∈ pairs, pair.1.length = n ∧ pair.2.length = n ∧ pair.1.conflicts pair.2 = 1) :
    pairs.length ≤ 2 * (n * Nat.pow 7 (n - 1)) := by
  have hsubset : pairs ⊆ (clashing n 1).map fun pair => (⟨pair.1⟩, ⟨pair.2⟩) := by
    intro pair hpair
    obtain ⟨hfirst, hsecond, hone⟩ := h pair hpair
    have hmem := mem_clashing pair.1.digits pair.2.digits (hfirst.trans hsecond.symm)
    rw [show pair.1.digits.length = n from hfirst] at hmem
    exact List.mem_map.mpr ⟨(pair.1.digits, pair.2.digits), hone ▸ hmem, rfl⟩
  have hle := hnodup.length_le_of_subset hsubset
  rw [List.length_map, length_clashing_one] at hle
  exact hle

end Cube

end CubeCover
