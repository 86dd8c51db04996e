import CubeCover.Proofs.Cube.Points

/-! Implicants of a list of cubes. If the list has a cover for each of its consensus cubes, then
every implicant lies in a single cube of the list, so that no prime implicant is missing. -/
namespace CubeCover

namespace Cube

/-- Some cube of a list covers the cube. -/
def CoveredBy (cubes : List Cube) (d : Cube) : Prop := ∃ c ∈ cubes, c.covers d = true

/-- Every point of the cube is a point of some cube of a list. -/
def IsImplicant (cubes : List Cube) (d : Cube) : Prop :=
  ∀ p ∈ d.points, ∃ c ∈ cubes, p ∈ c.points

/-- An implicant that no other implicant covers. -/
def IsPrimeImplicant (cubes : List Cube) (d : Cube) : Prop :=
  IsImplicant cubes d ∧ ∀ e, IsImplicant cubes e → e.covers d = true → e = d

/-- Wherever two cubes of a list have one conflict, some cube of the list covers their consensus. -/
def ConsensusClosed (cubes : List Cube) : Prop :=
  ∀ a ∈ cubes, ∀ b ∈ cubes, a.conflicts b = 1 → CoveredBy cubes (a.consensus b)

theorem coveredBy_of_covers (cubes : List Cube) (d e : Cube) (hd : CoveredBy cubes d)
    (hcov : d.covers e = true) : CoveredBy cubes e := by
  obtain ⟨c, hc, hcd⟩ := hd
  exact ⟨c, hc, covers_trans c d e hcd hcov⟩

theorem isImplicant_iff (cubes : List Cube) (d : Cube) :
    IsImplicant cubes d ↔ ∀ p : Cube, p.IsPoint → d.covers p = true → CoveredBy cubes p := by
  constructor
  · intro h p hp hcov
    obtain ⟨c, hc, hmem⟩ := h p ((mem_points_iff d p).mpr ⟨hp, hcov⟩)
    exact ⟨c, hc, ((mem_points_iff c p).mp hmem).2⟩
  · intro h p hmem
    have hp := (mem_points_iff d p).mp hmem
    obtain ⟨c, hc, hcov⟩ := h p hp.1 hp.2
    exact ⟨c, hc, (mem_points_iff c p).mpr ⟨hp.1, hcov⟩⟩

theorem isImplicant_consensus (cubes : List Cube) (a b : Cube) (hlength : a.length = b.length)
    (hone : a.conflicts b = 1) (ha : IsImplicant cubes a) (hb : IsImplicant cubes b) :
    IsImplicant cubes (a.consensus b) := by
  rw [isImplicant_iff] at ha hb ⊢
  intro p hp hcov
  -- a point of the consensus is a point of one of the two cubes
  rcases covers_or_of_consensus a b p hlength hone hp hcov with h | h
  · exact ha p hp h
  · exact hb p hp h

theorem isImplicant_of_covers {cubes : List Cube} {d e : Cube} (hd : IsImplicant cubes d)
    (hcov : d.covers e = true) : IsImplicant cubes e := by
  rw [isImplicant_iff] at hd ⊢
  intro p hp hpcov
  exact hd p hp (covers_trans d e p hcov hpcov)

/-- A cube that covers another one covers it even after one of its digits is freed. -/
theorem exists_freed_of_covers (a c : Cube) (hcov : a.covers c = true) (hne : a ≠ c) :
    ∃ i d, c.digits[i]? = some d ∧ d ≠ .free ∧ a.covers ⟨c.digits.set i .free⟩ = true := by
  obtain ⟨as⟩ := a
  obtain ⟨cs⟩ := c
  induction as generalizing cs with
  | nil =>
    cases cs with
    | nil => exact absurd rfl hne
    | cons c cs => exact absurd hcov (by simp [covers, coversDigits])
  | cons a as ih =>
    cases cs with
    | nil => exact absurd hcov (by simp [covers, coversDigits])
    | cons c cs =>
      rw [covers_cons] at hcov
      by_cases hhead : a = c
      · -- the heads are equal, so the place is in the tails
        have htail : (⟨as⟩ : Cube) ≠ ⟨cs⟩ := by
          intro heq
          rw [hhead, (Cube.mk.injEq _ _).mp heq] at hne
          exact hne rfl
        obtain ⟨i, d, hd, hfree, hcovers⟩ := ih cs hcov.2 htail
        exact ⟨i + 1, d, hd, hfree, (covers_cons a c as (cs.set i .free)).mpr ⟨hcov.1, hcovers⟩⟩
      · have ha : a = .free := ((Digit.covers_iff a c).mp hcov.1).resolve_right hhead
        have hc : c ≠ .free := fun hc => hhead (ha.trans hc.symm)
        have hfree : a.covers .free = true := (Digit.covers_iff a .free).mpr (Or.inl ha)
        exact ⟨0, c, rfl, hc, (covers_cons a .free as cs).mpr ⟨hfree, hcov.2⟩⟩

/-- An implicant is prime if it stops being one as soon as a digit is freed. -/
theorem isPrimeImplicant_of_freed {cubes : List Cube} {c : Cube} (hc : IsImplicant cubes c)
    (hfreed : ∀ i d, c.digits[i]? = some d → d ≠ .free →
      ¬ IsImplicant cubes ⟨c.digits.set i .free⟩) : IsPrimeImplicant cubes c := by
  refine ⟨hc, ?_⟩
  intro e he hcov
  by_contra hne
  obtain ⟨i, d, hd, hfree, hcovers⟩ := exists_freed_of_covers e c hcov hne
  exact hfreed i d hd hfree (isImplicant_of_covers he hcovers)

/-- Points have no other implicants than the cubes of which they are all points. -/
theorem isImplicant_iff_points {seeds : List Cube} (hpoints : ∀ s ∈ seeds, s.IsPoint) (c : Cube) :
    IsImplicant seeds c ↔ c.points ⊆ seeds := by
  constructor
  · intro h p hp
    obtain ⟨s, hs, hmem⟩ := h p hp
    have hcov := ((mem_points_iff s p).mp hmem).2
    rw [← (covers_iff_eq_of_isPoint s p (hpoints s hs)).mp hcov]
    exact hs
  · intro h p hp
    have hpoint := hpoints p (h hp)
    exact ⟨p, h hp, (mem_points_iff p p).mpr ⟨hpoint, covers_refl p⟩⟩

/-- A cube is a prime implicant of points if they are all its points, and not any more as soon as a digit
is freed. -/
theorem isPrimeImplicant_of_points {seeds : List Cube} (hpoints : ∀ s ∈ seeds, s.IsPoint) (c : Cube)
    (hc : c.points ⊆ seeds)
    (hfreed : ∀ i < c.length, c.digits[i]? ≠ some .free →
      ¬ points ⟨c.digits.set i .free⟩ ⊆ seeds) : IsPrimeImplicant seeds c := by
  apply isPrimeImplicant_of_freed ((isImplicant_iff_points hpoints c).mpr hc)
  intro i d hd hfree
  rw [isImplicant_iff_points hpoints]
  apply hfreed i (List.getElem?_eq_some_iff.mp hd).1
  rw [hd]
  exact fun h => hfree (Option.some.inj h)

theorem covers_half (l r : List Digit) (x : Digit) :
    covers ⟨l ++ .free :: r⟩ ⟨l ++ x :: r⟩ = true := by
  induction l with
  | nil => exact (covers_cons .free x r r).mpr ⟨rfl, covers_refl ⟨r⟩⟩
  | cons y l ih => exact (covers_cons y y _ _).mpr ⟨by cases y <;> rfl, ih⟩

/-- If two cubes cover the halves of a cube, then one of them covers it, or their consensus
does. -/
theorem covers_of_halves (a b : Cube) (l r : List Digit)
    (ha : a.covers ⟨l ++ .zero :: r⟩ = true) (hb : b.covers ⟨l ++ .one :: r⟩ = true) :
    a.covers ⟨l ++ .free :: r⟩ = true ∨ b.covers ⟨l ++ .free :: r⟩ = true ∨
      (a.conflicts b = 1 ∧ (a.consensus b).covers ⟨l ++ .free :: r⟩ = true) := by
  obtain ⟨as⟩ := a
  obtain ⟨bs⟩ := b
  -- by induction on the digits in front of the place where the halves part
  induction l generalizing as bs with
  | nil =>
    cases as with
    | nil => exact absurd ha (by simp [covers, coversDigits])
    | cons a as =>
      cases bs with
      | nil => exact absurd hb (by simp [covers, coversDigits])
      | cons b bs =>
        rw [List.nil_append, covers_cons] at ha hb
        rw [List.nil_append, covers_cons, covers_cons]
        have hrest := conflicts_of_covers ⟨as⟩ ⟨bs⟩ ⟨r⟩ ha.2 hb.2
        cases a with
        | free => exact Or.inl ⟨rfl, ha.2⟩
        | one => exact absurd ha.1 (by decide)
        | zero =>
          cases b with
          | free => exact Or.inr (Or.inl ⟨rfl, hb.2⟩)
          | zero => exact absurd hb.1 (by decide)
          | one =>
            -- the only conflict of the two cubes: their consensus frees the place
            refine Or.inr (Or.inr ⟨?_, ?_⟩)
            · rw [conflicts_cons, hrest]
              rfl
            · have hlen := (covers_length _ _ ha.2).trans (covers_length _ _ hb.2).symm
              exact (covers_cons .free .free (List.zipWith Digit.add as bs) r).mpr
                ⟨rfl, (covers_add_iff ⟨as⟩ ⟨bs⟩ ⟨r⟩ hlen hrest).mpr ⟨ha.2, hb.2⟩⟩
  | cons x l ih =>
    cases as with
    | nil => exact absurd ha (by simp [covers, coversDigits])
    | cons a as =>
      cases bs with
      | nil => exact absurd hb (by simp [covers, coversDigits])
      | cons b bs =>
        rw [List.cons_append, covers_cons] at ha hb
        rw [List.cons_append, covers_cons, covers_cons]
        have hapart := Digit.conflicts_of_covers a b x ha.1 hb.1
        rcases ih as ha.2 bs hb.2 with h | h | ⟨hone, h⟩
        · exact Or.inl ⟨ha.1, h⟩
        · exact Or.inr (Or.inl ⟨hb.1, h⟩)
        · refine Or.inr (Or.inr ⟨?_, ?_⟩)
          · rw [conflicts_cons, hapart, hone]
            rfl
          · exact (covers_cons (a.add b) x (List.zipWith Digit.add as bs) _).mpr
              ⟨(Digit.covers_add_iff a b x hapart).mpr ⟨ha.1, hb.1⟩, h⟩

theorem freeCount_split (l r : List Digit) (x : Digit) (hx : x ≠ .free) :
    freeCount ⟨l ++ .free :: r⟩ = freeCount ⟨l ++ x :: r⟩ + 1 := by
  have h : (x == Digit.free) = false := by simpa using hx
  simp only [freeCount, List.countP_append, List.countP_cons, h, beq_self_eq_true, if_true,
    Bool.false_eq_true, if_false]
  omega

/-- If a list of cubes has a cover for each consensus, every implicant lies in a single cube. -/
theorem coveredBy_of_isImplicant (cubes : List Cube) (hclosed : ConsensusClosed cubes) (d : Cube)
    (h : IsImplicant cubes d) : CoveredBy cubes d := by
  rw [isImplicant_iff] at h
  -- by induction on the number of free digits: both halves have one less
  induction hn : d.freeCount generalizing d with
  | zero =>
    have hp : d.IsPoint := by
      intro hmem
      exact absurd hn (Nat.ne_of_gt (List.countP_pos_iff.mpr ⟨.free, hmem, by decide⟩))
    exact h d hp (covers_refl d)
  | succ n ih =>
    have hmem : Digit.free ∈ d.digits := by
      have hpos : 0 < d.freeCount := by omega
      obtain ⟨x, hx, hfree⟩ := List.countP_pos_iff.mp hpos
      exact (beq_iff_eq.mp hfree) ▸ hx
    obtain ⟨l, r, hsplit⟩ := List.append_of_mem hmem
    have hd : d = ⟨l ++ .free :: r⟩ := congrArg Cube.mk hsplit
    rw [hd] at h hn ⊢
    have half (x : Digit) (hx : x ≠ .free) : CoveredBy cubes ⟨l ++ x :: r⟩ := by
      apply ih
      · intro p hp hcov
        exact h p hp (covers_trans _ _ _ (covers_half l r x) hcov)
      · have hcount := freeCount_split l r x hx
        omega
    -- cubes over the two halves, and the closure gives a cube over their consensus
    obtain ⟨a, ha, hazero⟩ := half .zero (by decide)
    obtain ⟨b, hb, hbone⟩ := half .one (by decide)
    rcases covers_of_halves a b l r hazero hbone with hcov | hcov | ⟨hone, hcov⟩
    · exact ⟨a, ha, hcov⟩
    · exact ⟨b, hb, hcov⟩
    · exact coveredBy_of_covers cubes _ _ (hclosed a ha b hb hone) hcov

/-- A list of implicants that is closed under consensus has every prime implicant. -/
theorem mem_of_isPrimeImplicant (seeds cubes : List Cube) (hclosed : ConsensusClosed cubes)
    (hsame : ∀ d, IsImplicant seeds d ↔ IsImplicant cubes d) (d : Cube)
    (hd : IsPrimeImplicant seeds d) : d ∈ cubes := by
  obtain ⟨c, hc, hcov⟩ := coveredBy_of_isImplicant cubes hclosed d ((hsame d).mp hd.1)
  have himplicant : IsImplicant seeds c := by
    rw [hsame]
    intro p hp
    exact ⟨c, hc, hp⟩
  rw [← hd.2 c himplicant hcov]
  exact hc

/-- If moreover no cube of the list covers another one, each of them is a prime implicant. -/
theorem isPrimeImplicant_of_mem (seeds cubes : List Cube) (hclosed : ConsensusClosed cubes)
    (hsame : ∀ d, IsImplicant seeds d ↔ IsImplicant cubes d)
    (hapart : ∀ a ∈ cubes, ∀ b ∈ cubes, a.covers b = true → a = b) (d : Cube) (hd : d ∈ cubes) :
    IsPrimeImplicant seeds d := by
  refine ⟨(hsame d).mpr fun p hp => ⟨d, hd, hp⟩, ?_⟩
  intro e he hcov
  obtain ⟨c, hc, hce⟩ := coveredBy_of_isImplicant cubes hclosed e ((hsame e).mp he)
  have hcd : c = d := hapart c hc d hd (covers_trans c e d hce hcov)
  exact covers_antisymm e d hcov (hcd ▸ hce)

end Cube

end CubeCover
