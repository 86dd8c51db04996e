import CubeCover.Proofs.Cube.Formula

/-! What the formula of some cubes is worth under an assignment, and when there is no such formula. It is true
just if one of the cubes covers the point of the assignment. Cubes have no formula just if one of them has not as
many digits as there are names. -/
namespace CubeCover

namespace Cube

/-- A cube of free digits alone covers every cube of its length. -/
theorem covers_of_all_free (p : Cube) : covers ⟨List.replicate p.length .free⟩ p = true := by
  obtain ⟨ds⟩ := p
  induction ds with
  | nil => rfl
  | cons d ds ih => exact (covers_cons .free d _ ds).mpr ⟨rfl, ih⟩

end Cube

namespace Formula

variable {names : List String} {first : Cube} {rest : List Cube}

/-- Cubes are compared with the first of them before any of them is given its names. -/
theorem ofCubes_of_uneven (names : List String) (h : ∃ c ∈ rest, c.length ≠ first.length) :
    ofCubes names (first :: rest) = .error .terms := by
  have hall : ¬ (first :: rest).all (·.length = first.length) = true := by simpa using h
  rw [ofCubes, if_neg hall]

theorem ofCubes_of_misnamed (heven : ∀ c ∈ rest, c.length = first.length)
    (h : names.length ≠ first.length) :
    ofCubes names (first :: rest) = .error (.names first names.length) := by
  have hall : (first :: rest).all (·.length = first.length) = true := by simpa using heven
  have hfirst : first.toAssignment names = .error (.names first names.length) := by
    rw [Cube.toAssignment, if_neg h]
  rw [ofCubes, if_pos hall, Cube.toAssignments, hfirst]

theorem exists_ofCubes (cubes : List Cube) (h : ∀ c ∈ cubes, c.length = names.length) :
    ∃ f, ofCubes names cubes = .ok f := by
  obtain ⟨terms, hterms, _⟩ := Cube.toAssignments_spec names cubes h
  exact ⟨ofProductTerms terms, ofCubes_eq_ofProductTerms names cubes h terms hterms⟩

/-- Cubes have no formula just if one of them has not as many digits as there are names. -/
theorem exists_error_ofCubes_iff (names : List String) {cubes : List Cube} (hsome : cubes ≠ []) :
    (∃ e, ofCubes names cubes = .error e) ↔ ∃ c ∈ cubes, c.length ≠ names.length := by
  constructor
  · rintro ⟨e, he⟩
    by_contra hnone
    have hlength : ∀ c ∈ cubes, c.length = names.length := by simpa using hnone
    obtain ⟨f, hf⟩ := exists_ofCubes cubes hlength
    rw [hf] at he
    cases he
  · rintro ⟨c, hc, hne⟩
    obtain ⟨first, rest, rfl⟩ := List.exists_cons_of_ne_nil hsome
    by_cases heven : ∀ d ∈ rest, d.length = first.length
    · -- all cubes have the length of the one that does not fit
      have hfirst : c.length = first.length := by
        rcases List.mem_cons.mp hc with rfl | hrest
        · rfl
        · exact heven c hrest
      exact ⟨_, ofCubes_of_misnamed heven fun h => hne (hfirst.trans h.symm)⟩
    · exact ⟨_, ofCubes_of_uneven names (by simpa using heven)⟩

/-- The value of the formula of some cubes under an assignment that has all names. -/
theorem evaluate_ofCubes (hdistinct : names.Nodup)
    (hnames : ∀ name ∈ names, isConstantName name = false) (cubes : List Cube)
    (hlength : ∀ c ∈ cubes, c.length = names.length) :
    ∃ f, ofCubes names cubes = .ok f ∧ ∀ a : Assignment, names ⊆ a.names →
      f.evaluate a = .ok (cubes.any fun c => c.covers (Cube.pointAt names a.value)) := by
  obtain ⟨f, hf, hover, hholds⟩ := ofCubes_spec names hdistinct hnames cubes hlength
  refine ⟨f, hf, ?_⟩
  intro a ha
  have hvalue : f.holds a.value = cubes.any fun c => c.covers (Cube.pointAt names a.value) := by
    rw [Bool.eq_iff_iff, hholds, List.any_eq_true]
  rw [evaluate_eq_holds names f hover a ha, hvalue]

theorem isConstantName_eq_false_of_notMem (htrue : "true" ∉ names) (hfalse : "false" ∉ names)
    (name : String) (hname : name ∈ names) : isConstantName name = false := by
  rw [isConstantName, Bool.or_eq_false_iff, beq_eq_false_iff_ne, beq_eq_false_iff_ne]
  constructor
  · rintro rfl
    exact htrue hname
  · rintro rfl
    exact hfalse hname

end Formula

/-- Cubes with as many digits as there are names, which are different and no constants, have a formula. Under
an assignment of all names it is true just if one of the cubes covers the point of the assignment: false if
there is no cube, and true if there is a cube of free digits alone. Some cubes have no formula just if one of
them has another number of digits. -/
theorem formula_of_cubes_tells_points (names : List String) (cubes : List Cube) :
    (names.Nodup → "true" ∉ names → "false" ∉ names → (∀ c ∈ cubes, c.length = names.length) →
      ∃ f, Formula.ofCubes names cubes = .ok f ∧ ∀ a : Assignment, names ⊆ a.names →
        (f.evaluate a = .ok true ↔ ∃ c ∈ cubes, c.covers (Cube.pointAt names a.value) = true) ∧
        (f.evaluate a = .ok false ↔ ¬ ∃ c ∈ cubes, c.covers (Cube.pointAt names a.value) = true) ∧
        (cubes = [] → f.evaluate a = .ok false) ∧
        (⟨List.replicate names.length .free⟩ ∈ cubes → f.evaluate a = .ok true)) ∧
    (cubes ≠ [] → ((∃ e, Formula.ofCubes names cubes = .error e) ↔
      ∃ c ∈ cubes, c.length ≠ names.length)) := by
  refine ⟨?_, Formula.exists_error_ofCubes_iff names⟩
  intro hdistinct htrue hfalse hlength
  have hnames := Formula.isConstantName_eq_false_of_notMem htrue hfalse
  obtain ⟨f, hf, hvalue⟩ := Formula.evaluate_ofCubes hdistinct hnames cubes hlength
  refine ⟨f, hf, ?_⟩
  intro a ha
  have heval := hvalue a ha
  have hcovered : f.evaluate a = .ok true ↔
      ∃ c ∈ cubes, c.covers (Cube.pointAt names a.value) = true := by
    rw [heval, Except.ok.injEq, List.any_eq_true]
  refine ⟨hcovered, ?_, ?_, ?_⟩
  · rw [← hcovered, heval, Except.ok.injEq, Except.ok.injEq, Bool.not_eq_true]
  · rintro rfl
    exact heval
  · intro hfree
    apply hcovered.mpr
    refine ⟨_, hfree, ?_⟩
    have hpoint := Cube.covers_of_all_free (Cube.pointAt names a.value)
    rw [Cube.length_pointAt] at hpoint
    exact hpoint

/-- Two cubes for two names: the first one has the point of the assignment, and a cube of three digits goes with
no formula. -/
theorem formula_of_cubes_tells_points_of_two :
    let names := ["x", "y"]
    let cubes : List Cube := [⟨[.one, .free]⟩, ⟨[.zero, .zero]⟩]
    let a : Assignment := ⟨[("y", false), ("z", true), ("x", true)], by decide⟩
    names.Nodup ∧ "true" ∉ names ∧ "false" ∉ names ∧ (∀ c ∈ cubes, c.length = names.length) ∧
      names ⊆ a.names ∧ Cube.pointAt names a.value = ⟨[.one, .zero]⟩ ∧
      (∃ f, Formula.ofCubes names cubes = .ok f ∧ f.evaluate a = .ok true) ∧
      ∃ e, Formula.ofCubes names (⟨[.one, .zero, .free]⟩ :: cubes) = .error e := by
  intro names cubes a
  have hdistinct : names.Nodup := by decide
  have htrue : "true" ∉ names := by decide
  have hfalse : "false" ∉ names := by decide
  have hlength : ∀ c ∈ cubes, c.length = names.length := by decide
  have ha : names ⊆ a.names := by decide
  have hpoint : Cube.pointAt names a.value = ⟨[.one, .zero]⟩ := by decide
  obtain ⟨f, hf, hvalue⟩ :=
    (formula_of_cubes_tells_points names cubes).1 hdistinct htrue hfalse hlength
  have herror := (formula_of_cubes_tells_points names (⟨[.one, .zero, .free]⟩ :: cubes)).2 (by simp)
  refine ⟨hdistinct, htrue, hfalse, hlength, ha, hpoint, ⟨f, hf, ?_⟩, herror.mpr ?_⟩
  · apply (hvalue a ha).1.mpr
    exact ⟨⟨[.one, .free]⟩, by decide, by decide⟩
  · exact ⟨⟨[.one, .zero, .free]⟩, by decide, by decide⟩

end CubeCover
