import CubeCover.Formula.Basic

/-! The names of the atoms of a formula, read from left to right, and the variables among them. -/
namespace CubeCover

namespace Formula

/-- The names of all atoms from left to right, as often as they occur. -/
def atomNames : Formula → List String
  | .atom name => [name]
  | .not operand => operand.atomNames
  | .binary _ left right => left.atomNames ++ right.atomNames

theorem note_placeholder (found : List String) : note found "" = found := rfl

/-- A formula that is no atom leaves its operands in its place. -/
theorem collect_cons_of_ne_atom (found : List String) {f : Formula} (hatom : ∀ name, f ≠ .atom name)
    (stack : List Formula) : collect found (f :: stack) = collect found (f.operands ++ stack) := by
  cases f with
  | atom name => exact absurd rfl (hatom name)
  | not operand => rw [collect]; simp
  | binary op left right => rw [collect]; simp

theorem collect_eq_foldl (found : List String) (stack : List Formula) :
    collect found stack = (stack.flatMap atomNames).foldl note found := by
  -- the induction follows the walk, which puts the operands of a formula in its place on the stack
  induction found, stack using collect.induct with
  | case1 found => rw [collect]; rfl
  | case2 found name stack ih =>
    rw [collect, ih, List.flatMap_cons]
    rfl
  | case3 found f stack hatom ih =>
    rw [collect_cons_of_ne_atom found hatom, ih]
    cases f with
    | atom name => exact absurd rfl (hatom name)
    | not operand =>
      simp only [operands, placeholder, List.cons_append, List.nil_append, List.flatMap_cons,
        atomNames, List.foldl_cons, note_placeholder]
    | binary op left right =>
      simp only [operands, List.cons_append, List.nil_append, List.flatMap_cons, atomNames,
        List.append_assoc]

theorem vars_eq_foldl (f : Formula) : f.vars = f.atomNames.foldl note [] := by
  rw [vars, collect_eq_foldl, List.flatMap_cons, List.flatMap_nil, List.append_nil]

theorem mem_note (found : List String) (name other : String) :
    other ∈ note found name ↔ other ∈ found ∨ (other = name ∧ isVariableName name = true) := by
  unfold note
  split
  · rename_i h
    rw [Bool.and_eq_true] at h
    simp [h.1]
  · rename_i h
    rw [Bool.and_eq_true, not_and] at h
    constructor
    · exact Or.inl
    · rintro (hmem | ⟨rfl, hvariable⟩)
      · exact hmem
      · simpa using h hvariable

theorem mem_foldl_note (names found : List String) (name : String) :
    name ∈ names.foldl note found ↔
      name ∈ found ∨ (name ∈ names ∧ isVariableName name = true) := by
  induction names generalizing found with
  | nil => simp
  | cons first names ih =>
    rw [List.foldl_cons, ih, mem_note, List.mem_cons]
    constructor
    · rintro ((h | ⟨rfl, h⟩) | ⟨h, hvariable⟩)
      · exact Or.inl h
      · exact Or.inr ⟨Or.inl rfl, h⟩
      · exact Or.inr ⟨Or.inr h, hvariable⟩
    · rintro (h | ⟨rfl | h, hvariable⟩)
      · exact Or.inl (Or.inl h)
      · exact Or.inl (Or.inr ⟨rfl, hvariable⟩)
      · exact Or.inr ⟨h, hvariable⟩

theorem nodup_foldl_note (names found : List String) (h : found.Nodup) :
    (names.foldl note found).Nodup := by
  induction names generalizing found with
  | nil => exact h
  | cons first names ih =>
    apply ih
    unfold note
    split
    · -- the name is not among those found before it
      rename_i hnew
      rw [Bool.and_eq_true, Bool.not_eq_true', List.contains_eq_mem, decide_eq_false_iff_not]
        at hnew
      rw [List.nodup_append]
      refine ⟨h, by simp, ?_⟩
      rintro a ha b hb rfl
      exact hnew.2 (List.mem_singleton.mp hb ▸ ha)
    · exact h

theorem foldl_note_of_subset (names found : List String) (h : names ⊆ found) :
    names.foldl note found = found := by
  induction names with
  | nil => rfl
  | cons first names ih =>
    have hfirst : note found first = found := by
      simp [note, h List.mem_cons_self]
    rw [List.foldl_cons, hfirst]
    exact ih fun name hname => h (List.mem_cons_of_mem first hname)

/-- Variables that are all new join those found before them in their order. -/
theorem foldl_note_of_nodup (names found : List String) (h : (found ++ names).Nodup)
    (hvariables : ∀ name ∈ names, isVariableName name = true) :
    names.foldl note found = found ++ names := by
  induction names generalizing found with
  | nil => exact (List.append_nil found).symm
  | cons first names ih =>
    have hnew : first ∉ found := by
      intro hmem
      exact (List.nodup_append.mp h).2.2 _ hmem _ List.mem_cons_self rfl
    have hfirst : note found first = found ++ [first] := by
      simp [note, hvariables first List.mem_cons_self, hnew]
    rw [List.foldl_cons, hfirst, ih]
    · rw [List.append_assoc]
      rfl
    · rw [List.append_assoc]
      exact h
    · intro name hname
      exact hvariables name (List.mem_cons_of_mem first hname)

/-- The variables are the names of atoms that are neither empty nor constants. -/
theorem mem_vars (f : Formula) (name : String) :
    name ∈ f.vars ↔ name ∈ f.atomNames ∧ isVariableName name = true := by
  rw [vars_eq_foldl, mem_foldl_note]
  simp

theorem nodup_vars (f : Formula) : f.vars.Nodup := by
  rw [vars_eq_foldl]
  exact nodup_foldl_note f.atomNames [] List.nodup_nil

end Formula

end CubeCover
