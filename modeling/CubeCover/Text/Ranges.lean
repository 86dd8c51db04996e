/-! Sets of code points, each written as an ascending list of closed ranges. -/
namespace CubeCover.Text

/-- A code point lies in one of the ranges, which ascend and do not touch. -/
def inRanges (point : Nat) : List (Nat × Nat) → Bool
  | [] => false
  | (first, last) :: rest =>
    if point < first then false
    else if point ≤ last then true
    else inRanges point rest

/-- A code point that lies in the ranges lies in one of them. -/
theorem exists_range {point : Nat} {ranges : List (Nat × Nat)}
    (h : inRanges point ranges = true) : ∃ r ∈ ranges, r.1 ≤ point ∧ point ≤ r.2 := by
  induction ranges with
  | nil => exact absurd h (by simp [inRanges])
  | cons r ranges ih =>
    rw [inRanges] at h
    split at h
    · exact absurd h Bool.false_ne_true
    · split at h
      · rename_i hfirst hlast
        exact ⟨r, List.mem_cons_self, Nat.le_of_not_lt hfirst, hlast⟩
      · obtain ⟨s, hs, hbounds⟩ := ih h
        exact ⟨s, List.mem_cons_of_mem r hs, hbounds⟩

end CubeCover.Text
