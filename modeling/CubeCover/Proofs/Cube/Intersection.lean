import CubeCover.Proofs.Cube.Points

/-! The intersection of two cubes. It fails just where a place conflicts, and then the cubes have no point in
common. Else it is their sum: it has their common points, and no cube below both of them is greater. -/
namespace CubeCover

/-- Two digits that do not conflict meet in their sum. -/
theorem Digit.meet?_eq (a b : Digit) :
    a.meet? b = if a.conflicts b = true then none else some (a.add b) := by
  cases a <;> cases b <;> decide

namespace Cube

/-- A cube that two cubes cover, and that covers every other such cube. -/
structure IsMeet (a b c : Cube) : Prop where
  left : a.covers c = true
  right : b.covers c = true
  greatest : ∀ d, a.covers d = true → b.covers d = true → c.covers d = true

theorem IsMeet.unique {a b c d : Cube} (hc : IsMeet a b c) (hd : IsMeet a b d) : c = d := by
  apply covers_antisymm
  · exact hc.greatest d hd.left hd.right
  · exact hd.greatest c hc.left hc.right

theorem opposes_eq_false_iff (a b : Cube) : a.opposes b = false ↔ a.conflicts b = 0 := by
  rw [opposes, decide_eq_false_iff_not]
  omega

theorem intersect_eq (a b : Cube) :
    a.intersect b = if a.conflicts b = 0 then some (a.add b) else none := by
  obtain ⟨as⟩ := a
  obtain ⟨bs⟩ := b
  -- both sides read the digits in pairs, as far as there are two
  induction as generalizing bs with
  | nil => rfl
  | cons a as ih =>
    cases bs with
    | nil => rfl
    | cons b bs =>
      have hcons : intersect ⟨a :: as⟩ ⟨b :: bs⟩ =
          (a.meet? b).bind fun d => (intersect ⟨as⟩ ⟨bs⟩).map fun c => ⟨d :: c.digits⟩ := by
        rw [intersect, intersect, meetDigits]
        cases a.meet? b <;> cases meetDigits as bs <;> rfl
      rw [hcons, ih bs, Digit.meet?_eq, conflicts_cons]
      by_cases hhead : a.conflicts b = true
      · -- a conflict at the first place is one of the whole
        have hsome : 1 + conflicts ⟨as⟩ ⟨bs⟩ ≠ 0 := by omega
        rw [if_pos hhead, if_pos hhead, if_neg hsome]
        rfl
      · rw [if_neg hhead, if_neg hhead, Nat.zero_add]
        by_cases htail : conflicts ⟨as⟩ ⟨bs⟩ = 0
        · rw [if_pos htail, if_pos htail]
          rfl
        · rw [if_neg htail, if_neg htail]
          rfl

theorem intersect_eq_none_iff (a b : Cube) : a.intersect b = none ↔ a.opposes b = true := by
  rw [← Bool.not_eq_false, opposes_eq_false_iff, intersect_eq]
  simp

theorem intersect_eq_some_iff (a b c : Cube) :
    a.intersect b = some c ↔ a.conflicts b = 0 ∧ a.add b = c := by
  rw [intersect_eq]
  simp

variable {a b : Cube}

/-- Cubes have a point in common just if nowhere one has a zero and the other a one. -/
theorem exists_common_point_iff (hlength : a.length = b.length) :
    (∃ p, p ∈ a.points ∧ p ∈ b.points) ↔ a.conflicts b = 0 := by
  constructor
  · rintro ⟨p, ha, hb⟩
    apply conflicts_of_covers a b p
    · exact ((mem_points_iff a p).mp ha).2
    · exact ((mem_points_iff b p).mp hb).2
  · intro hnone
    -- any point of the sum is a point of both
    obtain ⟨p, hp⟩ := exists_mem_points (a.add b)
    obtain ⟨hpoint, hcov⟩ := (mem_points_iff (a.add b) p).mp hp
    obtain ⟨ha, hb⟩ := (covers_add_iff a b p hlength hnone).mp hcov
    refine ⟨p, ?_, ?_⟩
    · exact (mem_points_iff a p).mpr ⟨hpoint, ha⟩
    · exact (mem_points_iff b p).mpr ⟨hpoint, hb⟩

theorem isMeet_add (hlength : a.length = b.length) (hnone : a.conflicts b = 0) :
    IsMeet a b (a.add b) := by
  have hcovers (d : Cube) := covers_add_iff a b d hlength hnone
  have hself := (hcovers (a.add b)).mp (covers_refl (a.add b))
  refine ⟨hself.1, hself.2, ?_⟩
  intro d ha hb
  exact (hcovers d).mpr ⟨ha, hb⟩

theorem mem_points_add_iff (hlength : a.length = b.length) (hnone : a.conflicts b = 0) (p : Cube) :
    p ∈ (a.add b).points ↔ p ∈ a.points ∧ p ∈ b.points := by
  rw [mem_points_iff, mem_points_iff, mem_points_iff, covers_add_iff a b p hlength hnone]
  exact and_and_left

end Cube

/-- The intersection of two cubes of one length fails just if no point is a point of both, which is just if
one of the cubes has a zero where the other has a one. Else its points are the common points of the two, and
it is the greatest cube that both of them cover. -/
theorem intersection_has_common_points (a b : Cube) (hlength : a.length = b.length) :
    (a.intersect b = none ↔ ¬ ∃ p, p ∈ a.points ∧ p ∈ b.points) ∧
    (a.intersect b = none ↔ a.opposes b = true) ∧
    (∀ c, a.intersect b = some c → ∀ p, p ∈ c.points ↔ p ∈ a.points ∧ p ∈ b.points) ∧
    ∀ c, a.intersect b = some c ↔ Cube.IsMeet a b c := by
  have hnone := Cube.intersect_eq_none_iff a b
  refine ⟨?_, hnone, ?_, ?_⟩
  · rw [hnone, Cube.exists_common_point_iff hlength, ← Cube.opposes_eq_false_iff,
      Bool.not_eq_false]
  · intro c hc
    obtain ⟨hapart, rfl⟩ := (Cube.intersect_eq_some_iff a b c).mp hc
    exact Cube.mem_points_add_iff hlength hapart
  · intro c
    rw [Cube.intersect_eq_some_iff]
    constructor
    · rintro ⟨hapart, rfl⟩
      exact Cube.isMeet_add hlength hapart
    · intro hmeet
      -- what both cover shows that they do not conflict
      have hapart := Cube.conflicts_of_covers a b c hmeet.left hmeet.right
      exact ⟨hapart, (Cube.isMeet_add hlength hapart).unique hmeet⟩

/-- Two edges that share an end, and an edge that is opposite to the first. -/
theorem intersection_has_common_points_of_edges :
    let a : Cube := ⟨[.one, .free, .zero]⟩
    let b : Cube := ⟨[.one, .one, .free]⟩
    let c : Cube := ⟨[.free, .one, .one]⟩
    a.length = b.length ∧ a.intersect b = some ⟨[.one, .one, .zero]⟩ ∧
      Cube.IsMeet a b ⟨[.one, .one, .zero]⟩ ∧
      a.length = c.length ∧ a.intersect c = none ∧ ¬ ∃ p, p ∈ a.points ∧ p ∈ c.points := by
  intro a b c
  have hshare : a.intersect b = some ⟨[.one, .one, .zero]⟩ := by decide
  have hopposite : a.intersect c = none := by decide
  obtain ⟨_, _, _, hmeet⟩ := intersection_has_common_points a b rfl
  obtain ⟨hempty, _⟩ := intersection_has_common_points a c rfl
  exact ⟨rfl, hshare, (hmeet _).mp hshare, rfl, hopposite, hempty.mp hopposite⟩

end CubeCover
