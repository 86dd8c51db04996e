import CubeCover.Cube.Covering
import Mathlib.Data.List.Forall2

/-! Points of cubes. A cube covers another one if it has all its points, and the consensus of two
cubes with one conflict has no point that neither of them has. -/
namespace CubeCover

namespace Digit

theorem mem_points_iff (a d : Digit) : d ∈ a.points ↔ d ≠ free ∧ a.covers d = true := by
  cases a <;> cases d <;> decide

theorem covers_add_iff (a b d : Digit) (h : a.conflicts b = false) :
    (a.add b).covers d = true ↔ a.covers d = true ∧ b.covers d = true := by
  revert h
  cases a <;> cases b <;> cases d <;> decide

theorem covers_or_of_conflicts (a b d : Digit) (h : a.conflicts b = true) (hd : d ≠ free) :
    a.covers d = true ∨ b.covers d = true := by
  -- one of the two digits is zero and the other one is one
  revert h hd
  cases a <;> cases b <;> cases d <;> decide

theorem conflicts_of_covers (a b d : Digit) (ha : a.covers d = true) (hb : b.covers d = true) :
    a.conflicts b = false := by
  revert ha hb
  cases a <;> cases b <;> cases d <;> decide

theorem conflicts_comm (a b : Digit) : a.conflicts b = b.conflicts a := by
  cases a <;> cases b <;> decide

theorem add_comm (a b : Digit) : a.add b = b.add a := by
  cases a <;> cases b <;> decide

theorem covers_antisymm (a b : Digit) (hab : a.covers b = true) (hba : b.covers a = true) :
    a = b := by
  revert hab hba
  cases a <;> cases b <;> decide

end Digit

namespace Cube

/-- No digit is free: the cube is a single point. -/
def IsPoint (p : Cube) : Prop := Digit.free ∉ p.digits

instance (p : Cube) : Decidable p.IsPoint :=
  inferInstanceAs (Decidable (Digit.free ∉ p.digits))

theorem freeCount_eq_zero_iff (p : Cube) : p.freeCount = 0 ↔ p.IsPoint := by
  rw [freeCount, List.countP_eq_zero, IsPoint]
  constructor
  · intro h hfree
    exact h .free hfree rfl
  · intro h d hd hfree
    exact h (beq_iff_eq.mp hfree ▸ hd)

theorem isPoint_cons (d : Digit) (ds : List Digit) :
    IsPoint ⟨d :: ds⟩ ↔ d ≠ .free ∧ IsPoint ⟨ds⟩ := by
  simp only [IsPoint, List.mem_cons, not_or, ne_comm, ne_eq]

theorem covers_cons (a b : Digit) (as bs : List Digit) :
    covers ⟨a :: as⟩ ⟨b :: bs⟩ = true ↔ a.covers b = true ∧ covers ⟨as⟩ ⟨bs⟩ = true := by
  simp only [covers, coversDigits, Bool.and_eq_true]

theorem conflicts_cons (a b : Digit) (as bs : List Digit) :
    conflicts ⟨a :: as⟩ ⟨b :: bs⟩ =
      (if a.conflicts b = true then 1 else 0) + conflicts ⟨as⟩ ⟨bs⟩ := by
  simp only [conflicts, List.zip_cons_cons, List.filter_cons]
  split
  · rw [List.length_cons, Nat.add_comm]
  · rw [Nat.zero_add]

theorem covers_iff_forall₂ (a b : Cube) :
    a.covers b = true ↔ List.Forall₂ (fun x y => x.covers y = true) a.digits b.digits := by
  obtain ⟨as⟩ := a
  obtain ⟨bs⟩ := b
  induction as generalizing bs with
  | nil => cases bs <;> simp [covers, coversDigits]
  | cons a as ih =>
    cases bs with
    | nil => simp [covers, coversDigits]
    | cons b bs => rw [covers_cons, List.forall₂_cons, ih]

theorem covers_length (a b : Cube) (h : a.covers b = true) : a.length = b.length :=
  ((covers_iff_forall₂ a b).mp h).length_eq

theorem covers_antisymm (a b : Cube) (hab : a.covers b = true) (hba : b.covers a = true) :
    a = b := by
  obtain ⟨as⟩ := a
  obtain ⟨bs⟩ := b
  have hlists := (covers_iff_forall₂ ⟨as⟩ ⟨bs⟩).mp hab
  simp only at hlists
  induction hlists with
  | nil => rfl
  | @cons a b as bs hhead htail ih =>
    rw [covers_cons] at hab hba
    have hd := Digit.covers_antisymm a b hab.1 hba.1
    have ht := ih hab.2 hba.2
    rw [hd, (Cube.mk.injEq as bs).mp ht]

theorem covers_iff_eq_of_isPoint (s p : Cube) (hs : s.IsPoint) : s.covers p = true ↔ s = p := by
  constructor
  · intro hcov
    obtain ⟨ss⟩ := s
    obtain ⟨ps⟩ := p
    have hlists := (covers_iff_forall₂ ⟨ss⟩ ⟨ps⟩).mp hcov
    simp only at hlists
    clear hcov
    induction hlists with
    | nil => rfl
    | @cons d e ds es hhead htail ih =>
      rw [isPoint_cons] at hs
      have hd : d = e := ((Digit.covers_iff d e).mp hhead).resolve_left hs.1
      rw [hd, (Cube.mk.injEq ds es).mp (ih hs.2)]
  · rintro rfl
    exact covers_refl s

/-- The points of a cube are the cubes without a free digit that it covers. -/
theorem mem_points_iff (a p : Cube) : p ∈ a.points ↔ p.IsPoint ∧ a.covers p = true := by
  obtain ⟨as⟩ := a
  obtain ⟨ps⟩ := p
  have hlists (ps : List Digit) :
      ps ∈ as.foldr (fun digit rest => digit.points.flatMap fun d => rest.map (d :: ·)) [[]] ↔
        IsPoint ⟨ps⟩ ∧ covers ⟨as⟩ ⟨ps⟩ = true := by
    induction as generalizing ps with
    | nil => cases ps <;> simp [IsPoint, covers, coversDigits]
    | cons a as ih =>
      simp only [List.foldr_cons, List.mem_flatMap, List.mem_map]
      constructor
      · rintro ⟨d, hd, rest, hrest, rfl⟩
        have hhead := (Digit.mem_points_iff a d).mp hd
        have htail := (ih rest).mp hrest
        exact ⟨(isPoint_cons d rest).mpr ⟨hhead.1, htail.1⟩,
          (covers_cons a d as rest).mpr ⟨hhead.2, htail.2⟩⟩
      · rintro ⟨hpoint, hcov⟩
        cases ps with
        | nil => exact absurd hcov (by simp [covers, coversDigits])
        | cons d rest =>
          rw [isPoint_cons] at hpoint
          rw [covers_cons] at hcov
          exact ⟨d, (Digit.mem_points_iff a d).mpr ⟨hpoint.1, hcov.1⟩, rest,
            (ih rest).mpr ⟨hpoint.2, hcov.2⟩, rfl⟩
  simp only [points, List.mem_map, Cube.mk.injEq, exists_eq_right]
  exact hlists ps

theorem exists_mem_points (a : Cube) : ∃ p, p ∈ a.points := by
  obtain ⟨ds⟩ := a
  simp only [mem_points_iff]
  induction ds with
  | nil => exact ⟨⟨[]⟩, by simp [IsPoint], rfl⟩
  | cons d ds ih =>
    obtain ⟨⟨ps⟩, hp, hcov⟩ := ih
    have hdigit : ∃ e : Digit, e ≠ .free ∧ d.covers e = true := by
      cases d with
      | zero => exact ⟨.zero, by decide, rfl⟩
      | one => exact ⟨.one, by decide, rfl⟩
      | free => exact ⟨.zero, by decide, rfl⟩
    obtain ⟨e, he, hcovers⟩ := hdigit
    exact ⟨⟨e :: ps⟩, (isPoint_cons e ps).mpr ⟨he, hp⟩, (covers_cons d e ds ps).mpr ⟨hcovers, hcov⟩⟩

theorem conflicts_comm (a b : Cube) : a.conflicts b = b.conflicts a := by
  obtain ⟨as⟩ := a
  obtain ⟨bs⟩ := b
  induction as generalizing bs with
  | nil => cases bs <;> rfl
  | cons a as ih =>
    cases bs with
    | nil => rfl
    | cons b bs => rw [conflicts_cons, conflicts_cons, Digit.conflicts_comm, ih]

theorem consensus_comm (a b : Cube) : a.consensus b = b.consensus a := by
  simp only [consensus, add, Cube.mk.injEq]
  exact List.zipWith_comm_of_comm Digit.add_comm

theorem length_consensus (a b : Cube) (h : a.length = b.length) :
    (a.consensus b).length = a.length := by
  rw [consensus, length_add, h, Nat.min_self]

theorem conflicts_self (a : Cube) : a.conflicts a = 0 := by
  obtain ⟨as⟩ := a
  induction as with
  | nil => rfl
  | cons a as ih =>
    rw [conflicts_cons, ih, Digit.conflicts_of_covers a a a (by cases a <;> rfl)
      (by cases a <;> rfl)]
    rfl

theorem conflicts_of_covers (a b d : Cube) (ha : a.covers d = true) (hb : b.covers d = true) :
    a.conflicts b = 0 := by
  obtain ⟨as⟩ := a
  obtain ⟨bs⟩ := b
  obtain ⟨ds⟩ := d
  -- both coverings walk along the covered digits, so the induction follows one and takes the other
  -- apart
  have has := (covers_iff_forall₂ ⟨as⟩ ⟨ds⟩).mp ha
  have hbs := (covers_iff_forall₂ ⟨bs⟩ ⟨ds⟩).mp hb
  simp only at has hbs
  clear ha hb
  induction has generalizing bs with
  | nil =>
    cases hbs
    rfl
  | @cons a d as ds ha _ ih =>
    cases hbs with
    | @cons b _ bs _ hb hbs =>
      rw [conflicts_cons, Digit.conflicts_of_covers a b d ha hb, ih bs hbs]
      rfl

/-- The sum of cubes without a conflict is their intersection. -/
theorem covers_add_iff (a b d : Cube) (hlength : a.length = b.length) (h : a.conflicts b = 0) :
    (a.add b).covers d = true ↔ a.covers d = true ∧ b.covers d = true := by
  obtain ⟨as⟩ := a
  obtain ⟨bs⟩ := b
  obtain ⟨ds⟩ := d
  induction as generalizing bs ds with
  | nil =>
    cases bs with
    | nil => exact (and_self_iff).symm
    | cons b bs => exact absurd hlength (by simp [length])
  | cons a as ih =>
    cases bs with
    | nil => exact absurd hlength (by simp [length])
    | cons b bs =>
      cases ds with
      | nil => simp [add, covers, coversDigits]
      | cons d ds =>
        rw [conflicts_cons] at h
        have hapart : a.conflicts b = false := by
          cases hab : a.conflicts b with
          | false => rfl
          | true => simp [hab] at h
        have hlen : length ⟨as⟩ = length ⟨bs⟩ := by simpa [length] using hlength
        have htail := ih bs hlen (by omega) ds
        have hhead := Digit.covers_add_iff a b d hapart
        have hsum : (add ⟨a :: as⟩ ⟨b :: bs⟩).covers ⟨d :: ds⟩ = true ↔
            (a.add b).covers d = true ∧ (add ⟨as⟩ ⟨bs⟩).covers ⟨ds⟩ = true :=
          covers_cons (a.add b) d (List.zipWith Digit.add as bs) ds
        rw [hsum, hhead, htail, covers_cons, covers_cons]
        exact and_and_and_comm

/-- If one place conflicts, every point of the consensus is a point of one of the two cubes. -/
theorem covers_or_of_consensus (a b p : Cube) (hlength : a.length = b.length)
    (hone : a.conflicts b = 1) (hp : p.IsPoint) (hcov : (a.consensus b).covers p = true) :
    a.covers p = true ∨ b.covers p = true := by
  obtain ⟨as⟩ := a
  obtain ⟨bs⟩ := b
  obtain ⟨ps⟩ := p
  induction as generalizing bs ps with
  | nil => exact absurd hone (by simp [conflicts])
  | cons a as ih =>
    cases bs with
    | nil => exact absurd hone (by simp [conflicts])
    | cons b bs =>
      cases ps with
      | nil => exact absurd hcov (by simp [consensus, add, covers, coversDigits])
      | cons d ds =>
        rw [isPoint_cons] at hp
        have hlen : length ⟨as⟩ = length ⟨bs⟩ := by simpa [length] using hlength
        have hsplit : (a.add b).covers d = true ∧ (add ⟨as⟩ ⟨bs⟩).covers ⟨ds⟩ = true :=
          (covers_cons (a.add b) d (List.zipWith Digit.add as bs) ds).mp hcov
        rw [conflicts_cons] at hone
        rw [covers_cons, covers_cons]
        cases hab : a.conflicts b with
        | true =>
          -- the one conflict stands here, so both tails cover the rest of the point
          rw [hab] at hone
          have htail := (covers_add_iff ⟨as⟩ ⟨bs⟩ ⟨ds⟩ hlen (by simpa using hone)).mp hsplit.2
          rcases Digit.covers_or_of_conflicts a b d hab hp.1 with ha | hb
          · exact Or.inl ⟨ha, htail.1⟩
          · exact Or.inr ⟨hb, htail.2⟩
        | false =>
          -- the conflict is in the tails, and both heads cover the digit of the point
          rw [hab] at hone
          have hhead := (Digit.covers_add_iff a b d hab).mp hsplit.1
          rcases ih bs hlen (by simpa using hone) ds hp.2 hsplit.2 with ha | hb
          · exact Or.inl ⟨hhead.1, ha⟩
          · exact Or.inr ⟨hhead.2, hb⟩

end Cube

end CubeCover
