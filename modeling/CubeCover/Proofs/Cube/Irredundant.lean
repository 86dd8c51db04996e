import CubeCover.Proofs.Cube.Implicants
import Mathlib.Data.List.Nodup

/-! Covers without a superfluous cube. A cube is superfluous if the other cubes have all its points
together, which none of them needs to do alone. That is so exactly if consensus, repeated, makes a
cube over it of the others. -/
namespace CubeCover

namespace Cube

/-- Every cube of a list has a point that none of the others has. -/
def Irredundant (cubes : List Cube) : Prop :=
  ∀ l c r, cubes = l ++ c :: r → ∃ p ∈ c.points, ∀ d ∈ l ++ r, p ∉ d.points

/-- The cubes of a list, and those that consensus makes of them when it is repeated. -/
inductive Obtainable (cubes : List Cube) : Cube → Prop
  | given {c : Cube} (h : c ∈ cubes) : Obtainable cubes c
  | consensus {a b : Cube} (ha : Obtainable cubes a) (hb : Obtainable cubes b)
      (hone : a.conflicts b = 1) : Obtainable cubes (a.consensus b)

variable {cubes l r : List Cube} {c : Cube} {n : Nat}

theorem subset_of_split (h : cubes = l ++ c :: r) : l ++ r ⊆ cubes :=
  h ▸ ((List.sublist_cons_self c r).append_left l).subset

theorem Obtainable.length (hlength : ∀ c ∈ cubes, c.length = n) {d : Cube}
    (h : Obtainable cubes d) : d.length = n := by
  induction h with
  | given hc => exact hlength _ hc
  | @consensus a b _ _ _ iha ihb => rw [length_consensus a b (iha.trans ihb.symm), iha]

theorem Obtainable.isImplicant (hlength : ∀ c ∈ cubes, c.length = n) {d : Cube}
    (h : Obtainable cubes d) : IsImplicant cubes d := by
  induction h with
  | @given c hc => exact fun p hp => ⟨c, hc, hp⟩
  | @consensus a b ha hb hone iha ihb =>
    have hsame := (ha.length hlength).trans (hb.length hlength).symm
    exact isImplicant_consensus cubes a b hsame hone iha ihb

/-- Every implicant lies in a cube that repeated consensus makes. -/
theorem isImplicant_iff_obtainable (hlength : ∀ c ∈ cubes, c.length = n) (d : Cube) :
    IsImplicant cubes d ↔ ∃ e, Obtainable cubes e ∧ e.covers d = true := by
  constructor
  · intro h
    classical
    -- there are only finitely many cubes of the length, and all that can be made are closed
    let all := ((digitLists n).map Cube.mk).filter fun c => Obtainable cubes c
    have hall (c : Cube) (hc : Obtainable cubes c) : c ∈ all := by
      have hdigits := mem_digitLists c.digits
      rw [show c.digits.length = n from hc.length hlength] at hdigits
      exact List.mem_filter.mpr ⟨List.mem_map.mpr ⟨c.digits, hdigits, rfl⟩, by simpa using hc⟩
    have hmade (c : Cube) (hc : c ∈ all) : Obtainable cubes c := by
      simpa using (List.mem_filter.mp hc).2
    have hclosed : ConsensusClosed all := by
      intro a ha b hb hone
      exact ⟨_, hall _ (.consensus (hmade a ha) (hmade b hb) hone), covers_refl _⟩
    have himplicant : IsImplicant all d := by
      intro p hp
      obtain ⟨c, hc, hmem⟩ := h p hp
      exact ⟨c, hall c (.given hc), hmem⟩
    obtain ⟨e, he, hcov⟩ := coveredBy_of_isImplicant all hclosed d himplicant
    exact ⟨e, hmade e he, hcov⟩
  · -- consensus never leaves the points of the list
    rintro ⟨e, he, hcov⟩
    have himplicant := he.isImplicant hlength
    rw [isImplicant_iff] at himplicant ⊢
    intro p hp hpcov
    exact himplicant p hp (covers_trans e d p hcov hpcov)

theorem irredundant_iff_not_isImplicant :
    Irredundant cubes ↔ ∀ l c r, cubes = l ++ c :: r → ¬ IsImplicant (l ++ r) c := by
  refine forall_congr' fun l => forall_congr' fun c => forall_congr' fun r => imp_congr_right ?_
  intro _
  simp only [IsImplicant, not_forall, not_exists, not_and, exists_prop]

/-- A cover is without a superfluous cube unless consensus of other cubes leads to a cube over one of
them. -/
theorem irredundant_iff_obtainable (hlength : ∀ c ∈ cubes, c.length = n) :
    Irredundant cubes ↔ ∀ l c r, cubes = l ++ c :: r → ∀ d, Obtainable (l ++ r) d →
      d.covers c = false := by
  rw [irredundant_iff_not_isImplicant]
  refine forall_congr' fun l => forall_congr' fun c => forall_congr' fun r => ?_
  refine imp_congr_right fun hsplit => ?_
  have hothers : ∀ e ∈ l ++ r, e.length = n := fun e he => hlength e (subset_of_split hsplit he)
  rw [isImplicant_iff_obtainable hothers]
  simp only [not_exists, not_and, Bool.not_eq_true]

/-- Among different cubes it is enough to tell a cube from the others by itself. -/
theorem irredundant_iff_of_nodup (hnodup : cubes.Nodup) :
    Irredundant cubes ↔ ∀ c ∈ cubes, ∃ p ∈ c.points, ∀ d ∈ cubes, p ∈ d.points → d = c := by
  constructor
  · intro h c hc
    obtain ⟨l, r, hsplit⟩ := List.append_of_mem hc
    obtain ⟨p, hp, hown⟩ := h l c r hsplit
    refine ⟨p, hp, ?_⟩
    intro d hd hmem
    by_contra hne
    rw [hsplit, List.mem_append, List.mem_cons] at hd
    have hother : d ∈ l ++ r := by
      rw [List.mem_append]
      rcases hd with hl | rfl | hr
      · exact Or.inl hl
      · exact absurd rfl hne
      · exact Or.inr hr
    exact hown d hother hmem
  · intro h l c r hsplit
    have hc : c ∈ cubes := by simp [hsplit]
    obtain ⟨p, hp, hown⟩ := h c hc
    refine ⟨p, hp, ?_⟩
    intro d hd hmem
    -- another cube with the point is the cube itself, which stands in the list only once
    have hdc : d = c := hown d (subset_of_split hsplit hd) hmem
    rw [hsplit, List.nodup_middle, List.nodup_cons] at hnodup
    exact hnodup.1 (hdc ▸ hd)

theorem Irredundant.tail (h : Irredundant (c :: cubes)) : Irredundant cubes := by
  intro l d r hsplit
  obtain ⟨p, hp, hown⟩ := h (c :: l) d r (congrArg (c :: ·) hsplit)
  exact ⟨p, hp, fun e he => hown e (List.mem_cons_of_mem c he)⟩

theorem Irredundant.nodup (h : Irredundant cubes) : cubes.Nodup := by
  induction cubes with
  | nil => exact List.nodup_nil
  | cons c cubes ih =>
    refine List.nodup_cons.mpr ⟨?_, ih h.tail⟩
    -- a second copy of the cube would have its own point
    intro hc
    obtain ⟨p, hp, hown⟩ := h [] c cubes rfl
    exact hown c hc hp

/-- A cover without a superfluous cube has no more cubes than points. -/
theorem Irredundant.length_le (h : Irredundant cubes) {points : List Cube}
    (hpoints : ∀ c ∈ cubes, c.points ⊆ points) : cubes.length ≤ points.length := by
  have hown := (irredundant_iff_of_nodup h.nodup).mp h
  choose! own hmem honly using hown
  have hnodup : (cubes.map own).Nodup := by
    apply h.nodup.map_on
    intro a ha b hb hab
    exact honly b hb a ha (hab ▸ hmem a ha)
  have hsubset : cubes.map own ⊆ points := by
    intro p hp
    obtain ⟨c, hc, rfl⟩ := List.mem_map.mp hp
    exact hpoints c hc (hmem c hc)
  have hle := hnodup.length_le_of_subset hsubset
  rw [List.length_map] at hle
  exact hle

/-- A superfluous cube can be left out. -/
theorem isImplicant_without (hc : IsImplicant (l ++ r) c) (d : Cube) :
    IsImplicant (l ++ r) d ↔ IsImplicant (l ++ c :: r) d := by
  constructor
  · intro h p hp
    obtain ⟨e, he, hpe⟩ := h p hp
    exact ⟨e, subset_of_split rfl he, hpe⟩
  · intro h p hp
    obtain ⟨e, he, hpe⟩ := h p hp
    rw [List.mem_append, List.mem_cons, or_left_comm, ← List.mem_append] at he
    rcases he with rfl | he
    · exact hc p hpe
    · exact ⟨e, he, hpe⟩

/-- Leaving out one superfluous cube after the other, one comes to a list without any that has the same
implicants. -/
theorem exists_irredundant_sublist (cubes : List Cube) :
    ∃ kept : List Cube, kept.Sublist cubes ∧ Irredundant kept ∧
      ∀ d, IsImplicant kept d ↔ IsImplicant cubes d := by
  induction hn : cubes.length generalizing cubes with
  | zero =>
    obtain rfl := List.eq_nil_of_length_eq_zero hn
    exact ⟨[], .refl _, fun l c r hsplit => absurd hsplit (by simp), fun _ => Iff.rfl⟩
  | succ n ih =>
    by_cases h : Irredundant cubes
    · exact ⟨cubes, .refl _, h, fun _ => Iff.rfl⟩
    · rw [irredundant_iff_not_isImplicant] at h
      push Not at h
      obtain ⟨l, c, r, rfl, hc⟩ := h
      have hlength : (l ++ r).length = n := by
        simp only [List.length_append, List.length_cons] at hn ⊢
        omega
      obtain ⟨kept, hsublist, hirredundant, hsame⟩ := ih (l ++ r) hlength
      refine ⟨kept, hsublist.trans ((List.sublist_cons_self c r).append_left l), hirredundant, ?_⟩
      intro d
      exact (hsame d).trans (isImplicant_without hc d)

end Cube

end CubeCover
