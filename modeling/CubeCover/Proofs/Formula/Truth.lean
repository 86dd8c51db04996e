import CubeCover.Proofs.Bindings
import CubeCover.Proofs.Formula.Names

/-! The truth value of a formula under a valuation of all names. An assignment that has the names of
the formula evaluates it to this value. -/
namespace CubeCover

/-- The value of a name, false for a name without one. -/
def Assignment.value (a : Assignment) (name : String) : Bool := (a.get? name).getD false

namespace Formula

/-- The truth value if every name has one. -/
def holds (v : String → Bool) : Formula → Bool
  | .atom name => if name = "true" then true else if name = "false" then false else v name
  | .not operand => !operand.holds v
  | .binary .and left right => left.holds v && right.holds v
  | .binary .or left right => left.holds v || right.holds v

/-- The atoms are constants or have one of some names. -/
def Over (names : List String) (f : Formula) : Prop :=
  ∀ name ∈ f.atomNames, isConstantName name = true ∨ name ∈ names

instance (names : List String) (f : Formula) : Decidable (f.Over names) :=
  inferInstanceAs (Decidable (∀ name ∈ f.atomNames, isConstantName name = true ∨ name ∈ names))

theorem over_binary_iff (names : List String) (op : Connective) (f g : Formula) :
    (Formula.binary op f g).Over names ↔ f.Over names ∧ g.Over names := by
  simp only [Over, atomNames, List.mem_append]
  constructor
  · intro h
    exact ⟨fun name hname => h name (Or.inl hname), fun name hname => h name (Or.inr hname)⟩
  · rintro ⟨hf, hg⟩ name (hname | hname)
    · exact hf name hname
    · exact hg name hname

theorem over_vars (f : Formula) (h : "" ∉ f.atomNames) : f.Over f.vars := by
  intro name hname
  by_cases hconstant : isConstantName name = true
  · exact Or.inl hconstant
  · right
    rw [mem_vars]
    have hempty : name ≠ "" := fun heq => h (heq ▸ hname)
    simp [isVariableName, hempty, hconstant, hname]

theorem holds_atom_congr (name : String) (v w : String → Bool)
    (h : isConstantName name = true ∨ v name = w name) :
    (Formula.atom name).holds v = (Formula.atom name).holds w := by
  simp only [isConstantName, Bool.or_eq_true, beq_iff_eq] at h
  rcases h with (rfl | rfl) | h
  · rfl
  · rfl
  · simp only [holds, h]

theorem holds_congr (names : List String) (f : Formula) (h : f.Over names) (v w : String → Bool)
    (hvw : ∀ name ∈ names, v name = w name) : f.holds v = f.holds w := by
  induction f with
  | atom name =>
    apply holds_atom_congr
    exact (h name (List.mem_singleton_self name)).imp_right (hvw name)
  | not operand ih => rw [holds, holds, ih h]
  | binary op left right ihleft ihright =>
    obtain ⟨hleft, hright⟩ := (over_binary_iff names op left right).mp h
    cases op <;> rw [holds, holds, ihleft hleft, ihright hright]

theorem evaluate_atom_eq_holds (name : String) (a : Assignment)
    (h : isConstantName name = true ∨ name ∈ a.names) :
    (Formula.atom name).evaluate a = .ok ((Formula.atom name).holds a.value) := by
  simp only [isConstantName, Bool.or_eq_true, beq_iff_eq] at h
  rcases h with (rfl | rfl) | h
  · rfl
  · rfl
  · obtain ⟨value, hvalue⟩ := a.exists_get?_of_mem_names name h
    simp only [evaluate, holds, Assignment.value, hvalue, Option.getD_some]
    split
    · rfl
    · split <;> rfl

/-- An assignment to all names evaluates a formula over them, and so is never at a loss. -/
theorem evaluate_eq_holds (names : List String) (f : Formula) (h : f.Over names) (a : Assignment)
    (ha : names ⊆ a.names) : f.evaluate a = .ok (f.holds a.value) := by
  induction f with
  | atom name =>
    apply evaluate_atom_eq_holds
    exact (h name (List.mem_singleton_self name)).imp_right fun hname => ha hname
  | not operand ih => rw [evaluate, ih h, holds]
  | binary op left right ihleft ihright =>
    obtain ⟨hleft, hright⟩ := (over_binary_iff names op left right).mp h
    rw [evaluate, ihleft hleft, ihright hright]
    -- a left operand that settles the value leaves nothing to the right one
    cases op with
    | and => cases hvalue : left.holds a.value <;> simp [Connective.settling, holds, hvalue]
    | or => cases hvalue : left.holds a.value <;> simp [Connective.settling, holds, hvalue]

end Formula

end CubeCover
