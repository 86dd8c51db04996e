import CubeCover.Proofs.Cube.Implicants

/-! What the consensus of two cubes is for. A cube within the points of two cubes lies in one of them, or
the two have exactly one conflict and it lies in their consensus. So the consensus is the greatest cube that
the two have only together, and there is no such cube if they do not have one conflict. -/
namespace CubeCover

namespace Digit

theorem conflicts_add (a b : Digit) : a.conflicts (a.add b) = false := by
  cases a <;> cases b <;> decide

theorem covers_add_of_conflicts (a b : Digit) (h : a.conflicts b = true) :
    a.covers (a.add b) = false := by
  revert h
  cases a <;> cases b <;> decide

end Digit

namespace Cube

/-- A cube whose points are points of two cubes, while neither of the two covers it. -/
def Bridges (a b d : Cube) : Prop :=
  (∀ p ∈ d.points, p ∈ a.points ∨ p ∈ b.points) ∧ a.covers d = false ∧ b.covers d = false

theorem isImplicant_pair (a b d : Cube) :
    IsImplicant [a, b] d ↔ ∀ p ∈ d.points, p ∈ a.points ∨ p ∈ b.points := by
  simp [IsImplicant]

theorem opposes_and_hasConsensus_iff (a b : Cube) :
    (a.opposes b = true ∧ a.hasConsensus b = true) ↔ a.conflicts b = 1 := by
  simp only [opposes, hasConsensus, decide_eq_true_eq]
  omega

theorem conflicts_consensus (a b : Cube) : a.conflicts (a.consensus b) = 0 := by
  obtain ⟨as⟩ := a
  obtain ⟨bs⟩ := b
  induction as generalizing bs with
  | nil => rfl
  | cons a as ih =>
    cases bs with
    | nil => rfl
    | cons b bs =>
      calc conflicts ⟨a :: as⟩ (consensus ⟨a :: as⟩ ⟨b :: bs⟩)
          = (if a.conflicts (a.add b) = true then 1 else 0) +
              conflicts ⟨as⟩ (consensus ⟨as⟩ ⟨bs⟩) := conflicts_cons _ _ _ _
        _ = 0 := by rw [Digit.conflicts_add, ih bs]; rfl

/-- The digit that a conflict frees is not free in either cube, so neither covers the consensus. -/
theorem covers_consensus_of_conflicts (a b : Cube) (h : 0 < a.conflicts b) :
    a.covers (a.consensus b) = false := by
  obtain ⟨as⟩ := a
  obtain ⟨bs⟩ := b
  induction as generalizing bs with
  | nil => exact absurd h (by simp [conflicts])
  | cons a as ih =>
    cases bs with
    | nil => exact absurd h (by simp [conflicts])
    | cons b bs =>
      rw [conflicts_cons] at h
      apply Bool.eq_false_iff.mpr
      intro hcov
      have hsplit : a.covers (a.add b) = true ∧
          covers ⟨as⟩ (consensus ⟨as⟩ ⟨bs⟩) = true := (covers_cons _ _ _ _).mp hcov
      cases hab : a.conflicts b with
      | true => exact absurd hsplit.1 (by simp [Digit.covers_add_of_conflicts a b hab])
      | false =>
        -- the conflict is in the tails
        rw [hab] at h
        exact absurd hsplit.2 (by simp [ih bs (by simpa using h)])

/-- Two cubes without exactly one conflict have no consensus that they do not cover. -/
theorem consensusClosed_pair (a b : Cube) (hne : a.conflicts b ≠ 1) : ConsensusClosed [a, b] := by
  intro x hx y hy hone
  have hswap : b.conflicts a ≠ 1 := conflicts_comm a b ▸ hne
  have hself (c : Cube) : c.conflicts c ≠ 1 := by simp [conflicts_self]
  rw [List.mem_pair] at hx hy
  rcases hx with rfl | rfl <;> rcases hy with rfl | rfl
  · exact absurd hone (hself _)
  · exact absurd hone hne
  · exact absurd hone hswap
  · exact absurd hone (hself _)

/-- Two cubes and their consensus have no other consensus, since it conflicts with neither of them. -/
theorem consensusClosed_consensus (a b : Cube) : ConsensusClosed [a, b, a.consensus b] := by
  have hleft : a.conflicts (a.consensus b) = 0 := conflicts_consensus a b
  have hright : b.conflicts (a.consensus b) = 0 := consensus_comm a b ▸ conflicts_consensus b a
  have hcovered : CoveredBy [a, b, a.consensus b] (a.consensus b) :=
    ⟨a.consensus b, by simp, covers_refl _⟩
  intro x hx y hy hone
  simp only [List.mem_cons, List.not_mem_nil, or_false] at hx hy
  rcases hx with rfl | rfl | rfl <;> rcases hy with rfl | rfl | rfl
  case inl.inr.inl => exact hcovered
  case inr.inl.inl => exact consensus_comm _ _ ▸ hcovered
  all_goals
    simp only [conflicts_self, conflicts_comm (consensus _ _), hleft, hright] at hone
    exact absurd hone (by decide)

/-- A cube lies in two cubes together just if it lies in one of them, or in their consensus. -/
theorem isImplicant_pair_iff (a b d : Cube) (hlength : a.length = b.length) :
    IsImplicant [a, b] d ↔
      a.covers d = true ∨ b.covers d = true ∨
        (a.conflicts b = 1 ∧ (a.consensus b).covers d = true) := by
  have hgiven (c : Cube) (hc : c ∈ [a, b]) : IsImplicant [a, b] c := fun p hp => ⟨c, hc, hp⟩
  constructor
  · intro h
    by_cases hone : a.conflicts b = 1
    · have hmore : IsImplicant [a, b, a.consensus b] d := by
        intro p hp
        obtain ⟨c, hc, hmem⟩ := h p hp
        exact ⟨c, List.mem_append_left [a.consensus b] hc, hmem⟩
      obtain ⟨c, hc, hcov⟩ := coveredBy_of_isImplicant _ (consensusClosed_consensus a b) d hmore
      simp only [List.mem_cons, List.not_mem_nil, or_false] at hc
      rcases hc with rfl | rfl | rfl
      · exact Or.inl hcov
      · exact Or.inr (Or.inl hcov)
      · exact Or.inr (Or.inr ⟨hone, hcov⟩)
    · obtain ⟨c, hc, hcov⟩ := coveredBy_of_isImplicant _ (consensusClosed_pair a b hone) d h
      rcases List.mem_pair.mp hc with rfl | rfl
      · exact Or.inl hcov
      · exact Or.inr (Or.inl hcov)
  · rintro (hcov | hcov | ⟨hone, hcov⟩)
    · exact isImplicant_of_covers (hgiven a (by simp)) hcov
    · exact isImplicant_of_covers (hgiven b (by simp)) hcov
    · have hconsensus : IsImplicant [a, b] (a.consensus b) :=
        isImplicant_consensus _ a b hlength hone (hgiven a (by simp)) (hgiven b (by simp))
      exact isImplicant_of_covers hconsensus hcov

theorem bridges_consensus {a b : Cube} (hlength : a.length = b.length) (hone : a.conflicts b = 1) :
    Bridges a b (a.consensus b) := by
  refine ⟨?_, ?_, ?_⟩
  · rw [← isImplicant_pair, isImplicant_pair_iff a b _ hlength]
    exact Or.inr (Or.inr ⟨hone, covers_refl _⟩)
  · apply covers_consensus_of_conflicts
    omega
  · rw [consensus_comm]
    apply covers_consensus_of_conflicts
    rw [conflicts_comm]
    omega

theorem covers_of_bridges {a b d : Cube} (hlength : a.length = b.length) (h : Bridges a b d) :
    a.conflicts b = 1 ∧ (a.consensus b).covers d = true := by
  have himplicant := (isImplicant_pair a b d).mpr h.1
  rcases (isImplicant_pair_iff a b d hlength).mp himplicant with hcov | hcov | hboth
  · exact absurd hcov (by simp [h.2.1])
  · exact absurd hcov (by simp [h.2.2])
  · exact hboth

end Cube

/-- The points of a cube are points of two cubes of one length just if one of the two covers it, or they
have one conflict and their consensus covers it. So the two have one conflict just if there is a cube that
they have only together, and then their consensus is the greatest one. -/
theorem consensus_is_greatest_bridge (a b : Cube) (hlength : a.length = b.length) :
    (∀ d : Cube, (∀ p ∈ d.points, p ∈ a.points ∨ p ∈ b.points) ↔
      a.covers d = true ∨ b.covers d = true ∨
        (a.opposes b = true ∧ a.hasConsensus b = true ∧ (a.consensus b).covers d = true)) ∧
    ((a.opposes b = true ∧ a.hasConsensus b = true) ↔ a.conflicts b = 1) ∧
    (a.conflicts b = 1 ↔ ∃ d, Cube.Bridges a b d) ∧
    (a.conflicts b = 1 → Cube.Bridges a b (a.consensus b) ∧
      ∀ d, Cube.Bridges a b d → (a.consensus b).covers d = true) := by
  have hguard := Cube.opposes_and_hasConsensus_iff a b
  refine ⟨?_, hguard, ?_, ?_⟩
  · intro d
    rw [← Cube.isImplicant_pair, Cube.isImplicant_pair_iff a b d hlength, ← hguard, and_assoc]
  · constructor
    · intro hone
      exact ⟨_, Cube.bridges_consensus hlength hone⟩
    · rintro ⟨d, hd⟩
      exact (Cube.covers_of_bridges hlength hd).1
  · intro hone
    exact ⟨Cube.bridges_consensus hlength hone, fun d hd => (Cube.covers_of_bridges hlength hd).2⟩

/-- Two edges with one conflict. Their consensus is the edge that has one end in each of them. -/
theorem consensus_is_greatest_bridge_of_edges :
    let a : Cube := ⟨[.one, .free, .zero]⟩
    let b : Cube := ⟨[.zero, .one, .free]⟩
    a.length = b.length ∧ a.consensus b = ⟨[.free, .one, .zero]⟩ ∧
      Cube.Bridges a b ⟨[.free, .one, .zero]⟩ ∧
      ∀ p ∈ Cube.points ⟨[.free, .one, .zero]⟩, p ∈ a.points ∨ p ∈ b.points := by
  intro a b
  have hlength : a.length = b.length := rfl
  obtain ⟨hexact, _, _, hgreatest⟩ := consensus_is_greatest_bridge a b hlength
  have hone : a.conflicts b = 1 := by decide
  refine ⟨hlength, by decide, (hgreatest hone).1, (hexact _).mpr ?_⟩
  exact Or.inr (Or.inr (by decide))

end CubeCover
