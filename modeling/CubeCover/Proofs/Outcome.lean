import CubeCover.Proofs.Minimize

/-! What a minimization can come to. A text that is no formula is refused, and so is a formula with too
many variables. Everything else is minimized: each check on the way holds by what the stages before it
have made. -/
namespace CubeCover

theorem minimize_eq_ok_iff (s : Settings) (text : String) :
    (∃ m, minimize s text = .ok m) ↔
      ∃ f, Formula.parse text = .ok f ∧ f.vars.length ≤ s.maxVariables := by
  constructor
  · rintro ⟨m, hm⟩
    obtain ⟨hparse, _, hempty, hformula⟩ := minimize_cases hm
    exact ⟨m.formula, hparse, (Minimization.ofFormula_eq_ok_iff s _ hempty).mp ⟨m, hformula⟩⟩
  · rintro ⟨f, hparse, hlimit⟩
    exact exists_minimize s hparse (Formula.empty_notMem_of_parse hparse) hlimit

theorem minimize_eq_error_iff (s : Settings) (text : String) (e : MinimizeError) :
    minimize s text = .error e ↔
      (∃ p, Formula.parse text = .error p ∧ e = .parse p) ∨
      ∃ f, Formula.parse text = .ok f ∧ s.maxVariables < f.vars.length ∧
        e = .tooManyVariables f.vars.length s.maxVariables := by
  constructor
  · intro h
    cases hparse : Formula.parse text with
    | error p =>
      rw [minimize, hparse] at h
      exact Or.inl ⟨p, rfl, (Except.error.inj h).symm⟩
    | ok f =>
      -- within the limit there is a result, so the formula is beyond it
      have hlimit : s.maxVariables < f.vars.length := by
        by_contra hle
        obtain ⟨m, hm⟩ := (minimize_eq_ok_iff s text).mpr ⟨f, hparse, Nat.le_of_not_lt hle⟩
        exact absurd (hm.symm.trans h) (by simp)
      simp only [minimize, hparse, Minimization.ofFormula, if_pos hlimit] at h
      exact Or.inr ⟨f, rfl, hlimit, (Except.error.inj h).symm⟩
  · rintro (⟨p, hparse, rfl⟩ | ⟨f, hparse, hlimit, rfl⟩)
    · rw [minimize, hparse]
    · simp only [minimize, hparse, Minimization.ofFormula, if_pos hlimit]

/-- All seeds of a minimization have a digit for each variable. -/
theorem Minimization.uniform_of_ofSeeds {s : Settings} {f : Formula} {m : Minimization}
    (hf : "" ∉ f.atomNames) (h : ofFormula s f = .ok m) {t : Table}
    (hseeds : Table.ofSeeds (m.terms.map Cube.ofAssignment) = .ok t) :
    t.Uniform f.vars.length := by
  have hnames : ∀ a ∈ m.terms, a.names = f.vars := fun a ha => (((terms_spec hf h).2 a).mp ha).1
  have hlength := Cube.length_of_mem_map_ofAssignment hnames
  exact Table.uniform_of_seedRows (Table.seedRows_of_ofSeeds _ hlength hseeds) _ hlength

/-- A minimization fails exactly if the text is no formula, with what the parser says of it, or if the
formula has more variables than the settings allow, with both numbers. Otherwise there is a result.
If an assignment satisfies the formula, its run starts from a table of seeds; in every state that runs
on this table pass through the lengths fit, and the rows that are combined next are in the table. -/
theorem minimize_fails_only_by_text_or_limit (s : Settings) (text : String) :
    (∀ e, minimize s text = .error e ↔
      (∃ p, Formula.parse text = .error p ∧ e = .parse p) ∨
      ∃ f, Formula.parse text = .ok f ∧ s.maxVariables < f.vars.length ∧
        e = .tooManyVariables f.vars.length s.maxVariables) ∧
    ((∃ m, minimize s text = .ok m) ↔
      ∃ f, Formula.parse text = .ok f ∧ f.vars.length ≤ s.maxVariables) ∧
    ∀ m, minimize s text = .ok m → (m.terms = [] ∧ m.run? = none) ∨
      ∃ t, Table.ofSeeds (m.terms.map Cube.ofAssignment) = .ok t ∧
        m.run? = some (t.run s.exhaustive) ∧
        ∀ r, Run.Reachable t r → r.fault? = none ∧ ∀ inner, r.inner = inner + 1 →
          inner < r.table.size ∧ r.outer < r.table.size := by
  refine ⟨minimize_eq_error_iff s text, minimize_eq_ok_iff s text, ?_⟩
  intro m hm
  obtain ⟨_, _, hempty, hformula⟩ := minimize_cases hm
  apply (Minimization.ofFormula_cases hformula).2.2.imp_right
  rintro ⟨t, hseeds, hrun⟩
  have ht := Minimization.uniform_of_ofSeeds hempty hformula hseeds
  refine ⟨t, hseeds, hrun, ?_⟩
  intro r hr
  refine ⟨hr.fault?_eq_none _ ht, ?_⟩
  intro inner hinner
  -- inner rows stand before the outer row, which is in the table as long as there are any
  have houter := hr.outer_lt_size.resolve_left (by omega)
  have hle := hr.inner_le_outer
  exact ⟨by omega, houter⟩

/-- A disjunction of two variables is minimized, unless one variable alone is allowed; without its
right operand it is refused as no formula. -/
theorem minimize_fails_by_text_or_limit_of_disjunction :
    (∃ m, minimize Settings.usual "x or y" = .ok m) ∧
      minimize ⟨1, .ascii, false, true⟩ "x or y" = .error (.tooManyVariables 2 1) ∧
      minimize Settings.usual "x or" = .error (.parse (.missingOperand none)) := by
  have hread : Formula.parse "x or y" = .ok (.binary .or (.atom "x") (.atom "y")) := by cbv
  have hnames : (Formula.binary .or (.atom "x") (.atom "y")).vars = ["x", "y"] := by
    rw [Formula.vars_eq_foldl]
    decide
  have hfirst := (minimize_fails_only_by_text_or_limit Settings.usual "x or y").2.1
  have hsecond := (minimize_fails_only_by_text_or_limit ⟨1, .ascii, false, true⟩ "x or y").1
  have hthird := (minimize_fails_only_by_text_or_limit Settings.usual "x or").1
  refine ⟨hfirst.mpr ⟨_, hread, ?_⟩, (hsecond _).mpr (Or.inr ⟨_, hread, ?_, ?_⟩), ?_⟩
  · rw [hnames]
    decide
  · rw [hnames]
    decide
  · rw [hnames]
    rfl
  · refine (hthird _).mpr (Or.inl ⟨.missingOperand none, ?_, rfl⟩)
    clear hread hnames hfirst hsecond hthird
    cbv

end CubeCover
