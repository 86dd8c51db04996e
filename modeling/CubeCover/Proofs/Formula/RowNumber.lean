import CubeCover.Proofs.Cube.Formula

/-! The truth table as a whole. Its rows are numbered by the bits of their values, and the points of the true
rows are the seeds of a minimization. -/
namespace CubeCover

/-- The truth table of some different names has two to the power of their number rows, with the names in their
order. Each assignment to them stands in exactly one row, whose number is the sum of the powers of two at the
places of its true values. So the true rows of a formula without the atom that has no name are its product
terms, none is dropped, and their cubes are different points. -/
theorem truth_table_lists_each_assignment_once :
    (∀ names : List String, names.Nodup →
      (Assignment.all names).length = Nat.pow 2 names.length ∧
      (∀ a ∈ Assignment.all names, a.names = names) ∧
      ∀ a : Assignment, a.names = names →
        ∀ i, (Assignment.all names)[i]? = some a ↔ i = a.rowNumber) ∧
    ∀ f : Formula, "" ∉ f.atomNames → ∃ terms,
      f.trueAssignments = .ok terms ∧ f.productTerms = .ok terms ∧
      (terms.map Cube.ofAssignment).Nodup ∧
      ∀ c ∈ terms.map Cube.ofAssignment, c.length = f.vars.length ∧ c.freeCount = 0 := by
  constructor
  · intro names h
    refine ⟨Assignment.length_all names, ?_, fun a ha => Assignment.getElem?_all_iff h ha⟩
    intro a ha
    exact (Assignment.mem_all names h a).mp ha
  · intro f h
    have hvars := Formula.nodup_vars f
    have hnodup := (Assignment.nodup_all f.vars hvars).filter fun a => f.holds a.value
    have hnames : ∀ a ∈ (Assignment.all f.vars).filter fun a => f.holds a.value,
        a.names = f.vars := by
      intro a ha
      exact (Assignment.mem_all f.vars hvars a).mp (List.mem_filter.mp ha).1
    refine ⟨_, Formula.trueAssignments_eq f h, Formula.productTerms_eq f h,
      Cube.nodup_map_ofAssignment hnodup hnames, ?_⟩
    intro c hc
    refine ⟨Cube.length_of_mem_map_ofAssignment hnames c hc, ?_⟩
    obtain ⟨a, _, rfl⟩ := List.mem_map.mp hc
    exact (Cube.freeCount_eq_zero_iff _).mpr (Cube.isPoint_ofAssignment a)

/-- The sixth of eight rows has the values true, false, true. The formula ¬y is true in one of its two rows,
which is its only product term. -/
theorem truth_table_lists_true_false_true :
    (Assignment.all ["x", "y", "z"])[5]? =
        some (Bindings.ofList [("x", true), ("y", false), ("z", true)]) ∧
      (Assignment.all ["x", "y", "z"]).length = 8 ∧
      ∃ terms, (Formula.not (.atom "y")).trueAssignments = .ok terms ∧
        (Formula.not (.atom "y")).productTerms = .ok terms ∧
        (terms.map Cube.ofAssignment).Nodup := by
  obtain ⟨hlength, _, hrow⟩ := truth_table_lists_each_assignment_once.1 ["x", "y", "z"] (by decide)
  obtain ⟨terms, htrue, hproduct, hnodup, _⟩ := truth_table_lists_each_assignment_once.2
    (.not (.atom "y")) (by decide)
  refine ⟨?_, hlength, terms, htrue, hproduct, hnodup⟩
  exact (hrow (Bindings.ofList [("x", true), ("y", false), ("z", true)]) (by decide) 5).mpr (by decide)

end CubeCover
