import CubeCover.Minimize
import CubeCover.Proofs.Cube.Formula
import CubeCover.Proofs.Formula.Regroup
import CubeCover.Proofs.Table.Cover

/-! The minimized formula and the normal form hold where the formula holds, their texts are read as
formulas that hold there too, and the cubes of the cover have the satisfying points. -/
namespace CubeCover

namespace Minimization

/-- What the cubes, the sums and the texts of a minimization have to do with its formula. -/
structure Agrees (m : Minimization) (f : Formula) : Prop where
  formula : m.formula = f
  dnf_over : m.dnf.Over f.vars
  dnf_holds : ∀ v, m.dnf.holds v = f.holds v
  minimized_over : m.minimized.Over f.vars
  minimized_holds : ∀ v, m.minimized.holds v = f.holds v
  length_cover : ∀ c ∈ m.cover, c.length = f.vars.length
  covered : ∀ v, Cube.CoveredBy m.cover (Cube.pointAt f.vars v) ↔ f.holds v = true

/-- The run on some assignments to the same names comes to an end without a fault, and its survivors
cover the points of the assignments. -/
theorem reduce_spec (exhaustive : Bool) (names : List String) (h : names.Nodup)
    (hconstant : ∀ name ∈ names, Formula.isConstantName name = false) (terms : List Assignment)
    (hne : terms ≠ []) (hterms : ∀ a ∈ terms, a.names = names) :
    ∃ run minimized, reduce exhaustive names terms = .ok (run, minimized) ∧
      run.table.Represents (terms.map Cube.ofAssignment) names.length ∧
      minimized.Over names ∧
      ∀ v, minimized.holds v = true ↔
        Cube.CoveredBy run.table.survivors (Cube.pointAt names v) := by
  have hlength := Cube.length_of_mem_map_ofAssignment hterms
  have hseedsne : terms.map Cube.ofAssignment ≠ [] := fun hnil => hne (List.map_eq_nil_iff.mp hnil)
  obtain ⟨t, hseeds, hrows⟩ := Table.ofSeeds_spec _ hseedsne names.length hlength
  have hstart := Table.Represents.of_seedRows hlength hrows
  have hreachable := t.reachable_run exhaustive
  have hend := hstart.of_reachable hreachable
  have hfault := hreachable.fault?_eq_none names.length hstart.uniform
  obtain ⟨minimized, hminimized, hover, hholds⟩ :=
    Formula.ofCubes_spec names h hconstant _ hend.length_survivors
  refine ⟨t.run exhaustive, minimized, ?_, hend, hover, hholds⟩
  simp only [reduce, hseeds, hfault, hminimized]

/-- The seeds of the run have the points of the valuations under which the formula holds. -/
theorem coveredBy_seeds_iff (f : Formula) (hf : f.Over f.vars) (terms : List Assignment)
    (hterms : ∀ a, a ∈ terms ↔ a.names = f.vars ∧ f.holds a.value = true) (v : String → Bool) :
    Cube.CoveredBy (terms.map Cube.ofAssignment) (Cube.pointAt f.vars v) ↔ f.holds v = true := by
  -- a seed is a point, so it covers the point of the valuation only if it is that point
  have hcovers (a : Assignment) (ha : a.names = f.vars) :
      (Cube.ofAssignment a).covers (Cube.pointAt f.vars v) = true ↔
        ∀ name ∈ f.vars, a.value name = v name := by
    rw [Cube.ofAssignment_eq_pointAt, Cube.covers_iff_eq_of_isPoint _ _ (Cube.isPoint_pointAt _ _),
      ha, Cube.pointAt_eq_iff]
  constructor
  · intro hcovered
    obtain ⟨c, hc, hcov⟩ := hcovered
    obtain ⟨a, ha, rfl⟩ := List.mem_map.mp hc
    obtain ⟨hnames, hholds⟩ := (hterms a).mp ha
    rw [← hholds]
    exact (Formula.holds_congr f.vars f hf a.value v ((hcovers a hnames).mp hcov)).symm
  · intro hholds
    obtain ⟨a, hnames, hvalue⟩ := Assignment.exists_of_valuation f.vars (Formula.nodup_vars f) v
    have hsame := Formula.holds_congr f.vars f hf a.value v hvalue
    have ha : a ∈ terms := (hterms a).mpr ⟨hnames, hsame.trans hholds⟩
    exact ⟨Cube.ofAssignment a, List.mem_map_of_mem ha, (hcovers a hnames).mpr hvalue⟩

theorem ofFormula_of_le (s : Settings) (f : Formula) (hf : "" ∉ f.atomNames)
    (hlimit : f.vars.length ≤ s.maxVariables) :
    ∃ m, ofFormula s f = .ok m ∧ m.Agrees f ∧ m.printer = ⟨s.script.symbols, s.flatten⟩ := by
  have hover := Formula.over_vars f hf
  obtain ⟨terms, hproduct, hterms⟩ := Formula.productTerms_spec f hf
  have hdnf := Formula.holds_of_terms f hover terms hterms
  have hdnfover : (Formula.ofProductTerms terms).Over f.vars := by
    apply Formula.over_ofProductTerms
    intro a ha
    rw [((hterms a).mp ha).1]
    exact fun _ hname => hname
  have hseeds := coveredBy_seeds_iff f hover terms hterms
  simp only [ofFormula, if_neg (Nat.not_lt_of_le hlimit), hproduct]
  cases terms with
  | nil =>
    -- without a term both sums are the constant, and there is no cube
    exact ⟨_, rfl, ⟨rfl, hdnfover, hdnf, hdnfover, hdnf, by simp [cover, table?], hseeds⟩, rfl⟩
  | cons first rest =>
    obtain ⟨run, minimized, hreduce, hrepresents, hminover, hholds⟩ :=
      reduce_spec s.exhaustive f.vars (Formula.nodup_vars f) (Formula.not_constant_of_mem_vars f)
        (first :: rest) (List.cons_ne_nil first rest) fun a ha => ((hterms a).mp ha).1
    have hcovered (v : String → Bool) :
        Cube.CoveredBy run.table.survivors (Cube.pointAt f.vars v) ↔ f.holds v = true :=
      (hrepresents.coveredBy_iff _ (Cube.isPoint_pointAt f.vars v)).trans (hseeds v)
    have hmin (v : String → Bool) : minimized.holds v = f.holds v := by
      rw [Bool.eq_iff_iff, hholds, hcovered]
    simp only [hreduce]
    exact ⟨_, rfl, ⟨rfl, hdnfover, hdnf, hminover, hmin, hrepresents.length_survivors, hcovered⟩,
      rfl⟩

/-- What a minimization consists of: its terms are those of the formula, and they are the seeds of
its run, unless there is none. -/
theorem ofFormula_cases {s : Settings} {f : Formula} {m : Minimization}
    (h : ofFormula s f = .ok m) :
    m.formula = f ∧ f.productTerms = .ok m.terms ∧
      ((m.terms = [] ∧ m.run? = none) ∨
        ∃ t, Table.ofSeeds (m.terms.map Cube.ofAssignment) = .ok t ∧
          m.run? = some (t.run s.exhaustive)) := by
  simp only [ofFormula] at h
  split at h
  · cases h
  · split at h
    · cases h
    · rename_i hproduct
      obtain rfl := Except.ok.inj h
      exact ⟨rfl, hproduct, Or.inl ⟨rfl, rfl⟩⟩
    · rename_i terms _ hproduct
      split at h
      · cases h
      · rename_i run minimized hreduce
        obtain rfl := Except.ok.inj h
        refine ⟨rfl, hproduct, Or.inr ?_⟩
        unfold reduce at hreduce
        split at hreduce
        · cases hreduce
        · rename_i t hseeds
          refine ⟨t, hseeds, ?_⟩
          simp only at hreduce
          split at hreduce
          · cases hreduce
          · split at hreduce
            · cases hreduce
            · exact congrArg some (Prod.mk.inj (Except.ok.inj hreduce)).1.symm

/-- The terms are the rows of the truth table in which the formula holds. -/
theorem terms_eq {s : Settings} {f : Formula} {m : Minimization} (hf : "" ∉ f.atomNames)
    (h : ofFormula s f = .ok m) :
    m.terms = (Assignment.all f.vars).filter fun a => f.holds a.value :=
  Except.ok.inj ((ofFormula_cases h).2.1.symm.trans (Formula.productTerms_eq f hf))

theorem terms_spec {s : Settings} {f : Formula} {m : Minimization} (hf : "" ∉ f.atomNames)
    (h : ofFormula s f = .ok m) :
    m.terms.Nodup ∧ ∀ a, a ∈ m.terms ↔ a.names = f.vars ∧ f.holds a.value = true := by
  have hnodup := Formula.nodup_vars f
  rw [terms_eq hf h]
  refine ⟨(Assignment.nodup_all f.vars hnodup).filter _, ?_⟩
  intro a
  rw [List.mem_filter, Assignment.mem_all f.vars hnodup]

/-- The limit on the variables alone decides whether a formula is minimized. -/
theorem ofFormula_eq_ok_iff (s : Settings) (f : Formula) (hf : "" ∉ f.atomNames) :
    (∃ m, ofFormula s f = .ok m) ↔ f.vars.length ≤ s.maxVariables := by
  constructor
  · intro hsome
    obtain ⟨m, hm⟩ := hsome
    by_contra hlimit
    rw [ofFormula, if_pos (Nat.lt_of_not_le hlimit)] at hm
    cases hm
  · intro hlimit
    obtain ⟨m, hm, _⟩ := ofFormula_of_le s f hf hlimit
    exact ⟨m, hm⟩

theorem agrees_of_ofFormula {s : Settings} {f : Formula} {m : Minimization}
    (hf : "" ∉ f.atomNames) (h : ofFormula s f = .ok m) :
    m.Agrees f ∧ m.printer = ⟨s.script.symbols, s.flatten⟩ := by
  have hlimit := (ofFormula_eq_ok_iff s f hf).mp ⟨m, h⟩
  obtain ⟨m', hm', hagrees⟩ := ofFormula_of_le s f hf hlimit
  obtain rfl : m = m' := Except.ok.inj (h.symm.trans hm')
  exact hagrees

namespace Agrees

variable {m : Minimization} {f : Formula}

theorem vars (h : m.Agrees f) : m.vars = f.vars := congrArg Formula.vars h.formula

theorem exists_toAssignment (h : m.Agrees f) (c : Cube) (hc : c ∈ m.cover) :
    ∃ a, c.toAssignment m.vars = .ok a := by
  have hlength : m.vars.length = c.length := by rw [h.vars, h.length_cover c hc]
  exact ⟨_, (Cube.toAssignment_eq_ok_iff c m.vars _).mpr ⟨hlength, rfl⟩⟩

theorem evaluate (h : m.Agrees f) (hf : f.Over f.vars) (a : Assignment) (ha : f.vars ⊆ a.names) :
    f.evaluate a = .ok (f.holds a.value) ∧ m.dnf.evaluate a = .ok (f.holds a.value) ∧
      m.minimized.evaluate a = .ok (f.holds a.value) := by
  have hvalue (g : Formula) (hg : g.Over f.vars) (hholds : ∀ v, g.holds v = f.holds v) :
      g.evaluate a = .ok (f.holds a.value) := by
    rw [Formula.evaluate_eq_holds f.vars g hg a ha, hholds]
  exact ⟨hvalue f hf fun _ => rfl, hvalue m.dnf h.dnf_over h.dnf_holds,
    hvalue m.minimized h.minimized_over h.minimized_holds⟩

theorem covers_iff (h : m.Agrees f) (hf : f.Over f.vars) (p : Cube) (hp : p.IsPoint)
    (hlength : p.length = f.vars.length) :
    (∃ c ∈ m.cover, c.covers p = true) ↔
      ∃ a : Assignment, a.names = f.vars ∧ f.evaluate a = .ok true ∧ Cube.ofAssignment a = p := by
  have hiff (a : Assignment) (ha : a.names = f.vars) :
      (∃ c ∈ m.cover, c.covers (Cube.ofAssignment a) = true) ↔ f.evaluate a = .ok true := by
    have hevaluate := Formula.evaluate_eq_holds f.vars f hf a fun _ hname => ha ▸ hname
    rw [hevaluate, Except.ok.injEq, Cube.ofAssignment_eq_pointAt, ha]
    exact h.covered a.value
  constructor
  · intro hcov
    obtain ⟨a, hnames, rfl⟩ := Cube.exists_assignment_of_isPoint f.vars (Formula.nodup_vars f) p hp
      hlength
    exact ⟨a, hnames, (hiff a hnames).mp hcov, rfl⟩
  · intro hsome
    obtain ⟨a, hnames, htrue, rfl⟩ := hsome
    exact (hiff a hnames).mpr htrue

theorem parse_texts (h : m.Agrees f) (hf : f.Over f.vars)
    (hlexemes : ∀ name ∈ f.vars, IsLexeme name) (flatten : Bool)
    (hprinter : m.printer = ⟨Script.ascii.symbols, flatten⟩) (output : String)
    (houtput : output ∈ [m.formulaText, m.dnfText, m.minimizedText]) :
    ∃ g, Formula.parse output = .ok g ∧
      ∀ a : Assignment, f.vars ⊆ a.names → g.evaluate a = f.evaluate a := by
  have hread (g : Formula) (hg : g.Over f.vars) (hholds : ∀ v, g.holds v = f.holds v) :
      ∃ g', Formula.parse (m.printer.render g) = .ok g' ∧
        ∀ a : Assignment, f.vars ⊆ a.names → g'.evaluate a = f.evaluate a := by
    obtain ⟨g', hparse, _, hsame⟩ :=
      Formula.parse_render_of_over flatten f.vars hlexemes g hg
    refine ⟨g', hprinter ▸ hparse, ?_⟩
    intro a ha
    calc g'.evaluate a
        = g.evaluate a := hsame a
      _ = .ok (g.holds a.value) := Formula.evaluate_eq_holds f.vars g hg a ha
      _ = .ok (f.holds a.value) := by rw [hholds]
      _ = f.evaluate a := (Formula.evaluate_eq_holds f.vars f hf a ha).symm
  simp only [List.mem_cons, List.not_mem_nil, or_false] at houtput
  rcases houtput with rfl | rfl | rfl
  · rw [formulaText, h.formula]
    exact hread f hf fun _ => rfl
  · exact hread m.dnf h.dnf_over h.dnf_holds
  · exact hread m.minimized h.minimized_over h.minimized_holds

end Agrees

end Minimization

theorem exists_minimize (s : Settings) {text : String} {f : Formula}
    (hparse : Formula.parse text = .ok f) (hf : "" ∉ f.atomNames)
    (hlimit : f.vars.length ≤ s.maxVariables) : ∃ m, minimize s text = .ok m := by
  obtain ⟨m, hm⟩ := (Minimization.ofFormula_eq_ok_iff s f hf).mpr hlimit
  refine ⟨m, ?_⟩
  rw [minimize, hparse]
  exact hm

theorem minimize_cases {s : Settings} {text : String} {m : Minimization}
    (h : minimize s text = .ok m) :
    Formula.parse text = .ok m.formula ∧ (∀ name ∈ m.formula.atomNames, IsLexeme name) ∧
      "" ∉ m.formula.atomNames ∧ Minimization.ofFormula s m.formula = .ok m := by
  unfold minimize at h
  split at h
  · cases h
  · rename_i f hparse
    obtain rfl := (Minimization.ofFormula_cases h).1
    exact ⟨hparse, Formula.isLexeme_of_parse text _ hparse, Formula.empty_notMem_of_parse hparse, h⟩

/-- A satisfiable formula within the limit is minimized by a run on its satisfying points. -/
theorem exists_minimize_of_seeds (s : Settings) (names : List String) (seeds : List Cube)
    {text : String} {f : Formula} (hparse : Formula.parse text = .ok f) (hf : "" ∉ f.atomNames)
    (hnames : f.vars = names) (hlimit : names.length ≤ s.maxVariables) (hne : seeds ≠ [])
    (hseeds : ((Assignment.all names).filter fun a => f.holds a.value).map Cube.ofAssignment =
      seeds) :
    ∃ m t, minimize s text = .ok m ∧ m.vars = names ∧ m.terms.map Cube.ofAssignment = seeds ∧
      Table.ofSeeds seeds = .ok t ∧ m.table? = some (t.run s.exhaustive).table ∧
      m.cover = (t.run s.exhaustive).table.survivors := by
  subst hnames
  obtain ⟨m, hm⟩ := exists_minimize s hparse hf hlimit
  have hof : Minimization.ofFormula s f = .ok m := by
    rw [minimize, hparse] at hm
    exact hm
  obtain ⟨hformula, _, hrun⟩ := Minimization.ofFormula_cases hof
  have hterms : m.terms.map Cube.ofAssignment = seeds := by
    rw [Minimization.terms_eq hf hof]
    exact hseeds
  rcases hrun with ⟨hnil, _⟩ | ⟨t, ht, hrun⟩
  · rw [hnil] at hterms
    exact absurd hterms.symm hne
  · have htable : m.table? = some (t.run s.exhaustive).table := by
      rw [Minimization.table?, hrun]
      rfl
    refine ⟨m, t, hm, by rw [Minimization.vars, hformula], hterms, hterms ▸ ht, htable, ?_⟩
    rw [Minimization.cover, htable]

/-- A formula is minimized to one with the same truth values, and so is its normal form; the cubes
of the cover have the satisfying points. The texts in the words of the parser are read as formulas
of the same truth values. -/
theorem minimize_preserves_truth (s : Settings) (text : String) (m : Minimization)
    (h : minimize s text = .ok m) :
    ∃ f, Formula.parse text = .ok f ∧ m.vars = f.vars ∧
      (∀ a : Assignment, m.vars ⊆ a.names →
        ∃ value, f.evaluate a = .ok value ∧ m.dnf.evaluate a = .ok value ∧
          m.minimized.evaluate a = .ok value) ∧
      (∀ c ∈ m.cover, c.length = m.vars.length) ∧
      (∀ p : Cube, p.IsPoint → p.length = m.vars.length →
        ((∃ c ∈ m.cover, c.covers p = true) ↔
          ∃ a : Assignment, a.names = m.vars ∧ f.evaluate a = .ok true ∧
            Cube.ofAssignment a = p)) ∧
      (s.script = .ascii → ∀ output ∈ [m.formulaText, m.dnfText, m.minimizedText],
        ∃ g, Formula.parse output = .ok g ∧
          ∀ a : Assignment, m.vars ⊆ a.names → g.evaluate a = f.evaluate a) := by
  unfold minimize at h
  split at h
  · cases h
  · rename_i f hparse
    have hlexemes := Formula.isLexeme_of_parse text f hparse
    have hempty : "" ∉ f.atomNames := fun hmem => not_isLexeme_empty (hlexemes "" hmem)
    have hover := Formula.over_vars f hempty
    have hlimit := (Minimization.ofFormula_eq_ok_iff s f hempty).mp ⟨m, h⟩
    obtain ⟨m', hm', hagrees, hprinter⟩ := Minimization.ofFormula_of_le s f hempty hlimit
    obtain rfl : m = m' := Except.ok.inj (h.symm.trans hm')
    have hvars : m.vars = f.vars := congrArg Formula.vars hagrees.formula
    rw [hvars]
    refine ⟨f, hparse, rfl, ?_, hagrees.length_cover, hagrees.covers_iff hover, ?_⟩
    · intro a ha
      exact ⟨f.holds a.value, hagrees.evaluate hover a ha⟩
    · intro hscript
      rw [hscript] at hprinter
      have hnames : ∀ name ∈ f.vars, IsLexeme name := fun name hname =>
        hlexemes name ((Formula.mem_vars f name).mp hname).1
      exact hagrees.parse_texts hover hnames s.flatten hprinter

/-- With the usual settings a disjunction is minimized to a formula that is true if the right
operand is, and so is the formula that its text is read as. -/
theorem minimize_preserves_truth_of_disjunction :
    ∃ m, minimize Settings.usual "x or y" = .ok m ∧
      m.minimized.evaluate (Bindings.ofList [("x", false), ("y", true)]) = .ok true ∧
      ∃ g, Formula.parse m.minimizedText = .ok g ∧
        g.evaluate (Bindings.ofList [("x", false), ("y", true)]) = .ok true := by
  have hread : Formula.parse "x or y" = .ok (.binary .or (.atom "x") (.atom "y")) := by cbv
  have hnames : (Formula.binary .or (.atom "x") (.atom "y")).vars = ["x", "y"] := by
    rw [Formula.vars_eq_foldl]
    decide
  obtain ⟨m, hm⟩ : ∃ m, minimize Settings.usual "x or y" = .ok m := by
    simp only [minimize, hread]
    rw [Minimization.ofFormula_eq_ok_iff _ _ (by decide), hnames]
    decide
  obtain ⟨f, hparse, hvars, hvalues, _, _, htexts⟩ := minimize_preserves_truth _ _ m hm
  rw [hread, Except.ok.injEq] at hparse
  subst hparse
  rw [hnames] at hvars
  have hsubset : m.vars ⊆ (Bindings.ofList [("x", false), ("y", true)]).names := by
    rw [hvars]
    decide
  obtain ⟨value, hf, _, hminimized⟩ := hvalues _ hsubset
  obtain ⟨g, hg, hsame⟩ := htexts rfl m.minimizedText (by simp)
  have hvalue : value = true := (Except.ok.inj hf).symm
  exact ⟨m, hm, hvalue ▸ hminimized, g, hg, (hsame _ hsubset).trans (hvalue ▸ hf)⟩

end CubeCover
