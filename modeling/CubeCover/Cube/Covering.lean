import CubeCover.Cube.Basic

/-! Covering is a preorder on cubes, and cubes of bounded length can be listed. -/
namespace CubeCover

namespace Digit

theorem covers_iff (a b : Digit) : a.covers b = true ↔ a = free ∨ a = b := by
  simp [covers]

end Digit

namespace Cube

theorem coversDigits_refl (as : List Digit) : coversDigits as as = true := by
  induction as with
  | nil => rfl
  | cons a as ih => simp [coversDigits, Digit.covers, ih]

theorem coversDigits_trans (as bs cs : List Digit) (hab : coversDigits as bs = true)
    (hbc : coversDigits bs cs = true) : coversDigits as cs = true := by
  induction as generalizing bs cs with
  | nil =>
    cases bs with
    | nil => exact hbc
    | cons b bs => exact absurd hab (by simp [coversDigits])
  | cons a as ih =>
    cases bs with
    | nil => exact absurd hab (by simp [coversDigits])
    | cons b bs =>
      cases cs with
      | nil => exact absurd hbc (by simp [coversDigits])
      | cons c cs =>
        simp only [coversDigits, Bool.and_eq_true, Digit.covers_iff] at hab hbc ⊢
        refine ⟨?_, ih bs cs hab.2 hbc.2⟩
        rcases hab.1 with ha | ha
        · exact Or.inl ha
        · exact ha ▸ hbc.1

theorem covers_refl (a : Cube) : a.covers a = true := coversDigits_refl a.digits

theorem covers_trans (a b c : Cube) (hab : a.covers b = true) (hbc : b.covers c = true) :
    a.covers c = true :=
  coversDigits_trans a.digits b.digits c.digits hab hbc

theorem length_add (a b : Cube) : (a.add b).length = min a.length b.length := by
  simp [add, length]

/-- All lists of digits of a length. -/
def digitLists : Nat → List (List Digit)
  | 0 => [[]]
  | n + 1 =>
    [Digit.zero, Digit.one, Digit.free].flatMap fun digit => (digitLists n).map (digit :: ·)

theorem mem_digitLists (digits : List Digit) : digits ∈ digitLists digits.length := by
  induction digits with
  | nil => simp [digitLists]
  | cons digit rest ih =>
    simp only [List.length_cons, digitLists, List.mem_flatMap, List.mem_map]
    exact ⟨digit, by cases digit <;> simp, rest, ih, rfl⟩

/-- All cubes up to a length. -/
def upTo (bound : Nat) : List Cube :=
  (List.range (bound + 1)).flatMap fun n => (digitLists n).map Cube.mk

theorem mem_upTo (a : Cube) (bound : Nat) (h : a.length ≤ bound) : a ∈ upTo bound := by
  simp only [upTo, List.mem_flatMap, List.mem_range, List.mem_map]
  exact ⟨a.length, Nat.lt_succ_of_le h, a.digits, mem_digitLists a.digits, rfl⟩

end Cube

end CubeCover
