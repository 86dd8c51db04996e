import CubeCover.Proofs.Cube.Term
import CubeCover.Proofs.Minimize
import CubeCover.Proofs.Table.Primes
import Mathlib.Data.List.Perm.Subperm
import Mathlib.Data.Set.Basic

/-! The cover of an exhaustive minimization, taken as a set of product terms, is the set of the prime
terms of the formula. So formulas with the same values have the same cover, whatever the order of
their variables and however many there are. -/
namespace CubeCover

/-- The points of different assignments to the same names lie apart. -/
theorem Cube.pairwise_apart_of_terms (names : List String) (terms : List Assignment)
    (hnodup : terms.Nodup) (hnames : ∀ a ∈ terms, a.names = names) :
    (terms.map ofAssignment).Pairwise Apart := by
  apply pairwise_apart_of_points
  · exact nodup_map_ofAssignment hnodup hnames
  · intro c hc
    obtain ⟨a, _, rfl⟩ := List.mem_map.mp hc
    exact isPoint_ofAssignment a

namespace Minimization

/-- The product terms of the cubes of the cover. -/
def coverTerms (m : Minimization) : Set Term :=
  {t | ∃ c ∈ m.cover, ∃ a, c.toAssignment m.vars = .ok a ∧ a.get? = t}

variable {s : Settings} {f : Formula} {m : Minimization}

/-- The seeds are different points of the number of variables. -/
theorem seeds_spec (hf : "" ∉ f.atomNames) (h : ofFormula s f = .ok m) :
    (∀ c ∈ m.terms.map Cube.ofAssignment, c.length = m.vars.length) ∧
      (∀ c ∈ m.terms.map Cube.ofAssignment, c.IsPoint) ∧
      (m.terms.map Cube.ofAssignment).Pairwise Cube.Apart := by
  obtain ⟨hnodup, hterms⟩ := terms_spec hf h
  have hnames : ∀ a ∈ m.terms, a.names = f.vars := fun a ha => ((hterms a).mp ha).1
  rw [vars, (ofFormula_cases h).1]
  refine ⟨Cube.length_of_mem_map_ofAssignment hnames, ?_,
    Cube.pairwise_apart_of_terms f.vars m.terms hnodup hnames⟩
  intro c hc
  obtain ⟨a, _, rfl⟩ := List.mem_map.mp hc
  exact Cube.isPoint_ofAssignment a

/-- The table is that of a run on the seeds, and its survivors are the cover. -/
theorem run_of_table? (hf : "" ∉ f.atomNames) (h : ofFormula s f = .ok m) {t : Table}
    (ht : m.table? = some t) :
    ∃ t₀ : Table, t₀.rows.toList = ((m.terms.map Cube.ofAssignment).zipIdx 1).map Table.seedRow ∧
      t = (t₀.run s.exhaustive).table ∧ m.cover = t.survivors := by
  have hcover : m.cover = t.survivors := by rw [cover, ht]
  rcases (ofFormula_cases h).2.2 with ⟨_, hrun⟩ | ⟨t₀, hseeds, hrun⟩
  · rw [table?, hrun] at ht
    exact absurd ht (by simp)
  · rw [table?, hrun] at ht
    exact ⟨t₀, Table.seedRows_of_ofSeeds m.vars.length (seeds_spec hf h).1 hseeds,
      (Option.some.inj ht).symm, hcover⟩

/-- An exhaustive minimization leaves the prime implicants of the satisfying points. -/
theorem mem_cover_iff (hf : "" ∉ f.atomNames) (h : ofFormula s f = .ok m)
    (hs : s.exhaustive = true) (c : Cube) :
    c ∈ m.cover ↔ Cube.IsPrimeImplicant (m.terms.map Cube.ofAssignment) c := by
  cases ht : m.table? with
  | none =>
    -- without a seed there is no cube, and no implicant either since every cube has a point
    have hcover : m.cover = [] := by rw [cover, ht]
    have hnil : m.terms = [] := by
      rcases (ofFormula_cases h).2.2 with ⟨hnil, _⟩ | ⟨t, _, hrun⟩
      · exact hnil
      · rw [table?, hrun] at ht
        exact absurd ht (by simp)
    rw [hcover, hnil]
    constructor
    · intro hc
      exact absurd hc (by simp)
    · intro hprime
      obtain ⟨p, hp⟩ := c.exists_mem_points
      obtain ⟨d, hd, _⟩ := hprime.1 p hp
      exact absurd hd (by simp)
  | some t =>
    -- the seeds are points apart from each other, so that the run leaves all primes and nothing else
    obtain ⟨hlength, _, hapart⟩ := seeds_spec hf h
    obtain ⟨t₀, hrows, rfl, hcover⟩ := run_of_table? hf h ht
    rw [hcover, hs]
    exact Table.mem_survivors_run_iff m.vars.length hlength hapart hrows c

theorem mem_coverTerms_iff (hf : "" ∉ f.atomNames) (h : ofFormula s f = .ok m)
    (hs : s.exhaustive = true) (t : Term) : t ∈ m.coverTerms ↔ f.IsPrimeImplicant t := by
  have hover := Formula.over_vars f hf
  have hnodup := Formula.nodup_vars f
  have hseeds := coveredBy_seeds_iff f hover m.terms (terms_spec hf h).2
  rw [coverTerms, (agrees_of_ofFormula hf h).1.vars]
  constructor
  · rintro ⟨c, hc, a, ha, rfl⟩
    obtain ⟨hcube, hwithin⟩ := Cube.ofTerm_of_toAssignment hnodup c a ha
    rw [mem_cover_iff hf h hs, ← hcube] at hc
    exact (Cube.isPrimeImplicant_ofTerm_iff hnodup hseeds hwithin).mp hc
  · intro hprime
    -- a prime term asks for variables alone, so it is the term of its cube
    have hwithin := hprime.over_names hover
    have hcube := (Cube.isPrimeImplicant_ofTerm_iff hnodup hseeds hwithin).mpr hprime
    have hlength := (Cube.length_ofTerm f.vars t).symm
    have ha := (Cube.toAssignment_eq_ok_iff (Cube.ofTerm f.vars t) f.vars _).mpr ⟨hlength, rfl⟩
    obtain ⟨hsame, hover'⟩ := Cube.ofTerm_of_toAssignment hnodup _ _ ha
    exact ⟨_, (mem_cover_iff hf h hs _).mpr hcube, _, ha, Cube.eq_of_ofTerm hover' hwithin hsame⟩

/-- The formula holds where a term of the cover asks for nothing else. -/
theorem holds_iff (hf : "" ∉ f.atomNames) (h : ofFormula s f = .ok m) (v : String → Bool) :
    f.holds v = true ↔ ∃ t ∈ m.coverTerms, t.ExtendedBy v := by
  have hagrees := (agrees_of_ofFormula hf h).1
  have hterm (c : Cube) (a : Assignment) (ha : c.toAssignment m.vars = .ok a) :
      c.covers (Cube.pointAt f.vars v) = true ↔ Term.ExtendedBy a.get? v := by
    rw [hagrees.vars] at ha
    obtain ⟨hcube, hwithin⟩ := Cube.ofTerm_of_toAssignment (Formula.nodup_vars f) c a ha
    rw [← Cube.covers_pointAt_iff hwithin, hcube]
  rw [← hagrees.covered v]
  constructor
  · rintro ⟨c, hc, hcov⟩
    obtain ⟨a, ha⟩ := hagrees.exists_toAssignment c hc
    exact ⟨a.get?, ⟨c, hc, a, ha, rfl⟩, (hterm c a ha).mp hcov⟩
  · rintro ⟨t, ⟨c, hc, a, ha, rfl⟩, hextended⟩
    exact ⟨c, hc, (hterm c a ha).mpr hextended⟩

theorem coverTerms_eq_iff {s' : Settings} {f' : Formula} {m' : Minimization}
    (hf : "" ∉ f.atomNames) (h : ofFormula s f = .ok m) (hs : s.exhaustive = true)
    (hf' : "" ∉ f'.atomNames) (h' : ofFormula s' f' = .ok m') (hs' : s'.exhaustive = true) :
    m.coverTerms = m'.coverTerms ↔ ∀ v, f.holds v = f'.holds v := by
  constructor
  · intro hsame v
    rw [Bool.eq_iff_iff, holds_iff hf h, holds_iff hf' h', hsame]
  · intro hholds
    ext t
    rw [mem_coverTerms_iff hf h hs, mem_coverTerms_iff hf' h' hs']
    exact Formula.isPrimeImplicant_congr hholds t

theorem dependsOn_of_mem_cover (hf : "" ∉ f.atomNames) (h : ofFormula s f = .ok m)
    (hs : s.exhaustive = true) (c : Cube) (hc : c ∈ m.cover) :
    ∃ a, c.toAssignment m.vars = .ok a ∧ ∀ name ∈ a.names, f.DependsOn name := by
  obtain ⟨a, ha⟩ := (agrees_of_ofFormula hf h).1.exists_toAssignment c hc
  refine ⟨a, ha, ?_⟩
  intro name hname
  obtain ⟨value, hvalue⟩ := a.exists_get?_of_mem_names name hname
  have hprime := (mem_coverTerms_iff hf h hs a.get?).mp ⟨c, hc, a, ha, rfl⟩
  exact hprime.dependsOn (Formula.over_vars f hf) hvalue

/-- The text of the minimized formula is read as a formula that can be minimized as well. -/
theorem exists_minimize_minimizedText (hlexemes : ∀ name ∈ f.atomNames, IsLexeme name)
    (hf : "" ∉ f.atomNames) (h : ofFormula s f = .ok m) (hscript : s.script = .ascii) :
    (∃ m', minimize s m.minimizedText = .ok m') ∧
      ∃ g, Formula.parse m.minimizedText = .ok g ∧ ∀ v, g.holds v = f.holds v := by
  obtain ⟨hagrees, hprinter⟩ := agrees_of_ofFormula hf h
  have hnames : ∀ name ∈ f.vars, IsLexeme name := fun name hname =>
    hlexemes name ((Formula.mem_vars f name).mp hname).1
  obtain ⟨g, hparse, hover, hvalues⟩ :=
    Formula.parse_render_of_over s.flatten f.vars hnames m.minimized hagrees.minimized_over
  have hread : Formula.parse m.minimizedText = .ok g := by
    rw [minimizedText, hprinter, hscript]
    exact hparse
  constructor
  · -- the text has no variable that the formula lacks, so the limit allows it
    have hsubset : g.vars ⊆ f.vars := by
      intro name hname
      rcases hover name ((Formula.mem_vars g name).mp hname).1 with hconstant | hvar
      · rw [Formula.not_constant_of_mem_vars g name hname] at hconstant
        cases hconstant
      · exact hvar
    have hlength := (List.subperm_of_subset (Formula.nodup_vars g) hsubset).length_le
    have hlimit := (ofFormula_eq_ok_iff s f hf).mp ⟨m, h⟩
    exact exists_minimize s hread (Formula.empty_notMem_of_parse hread)
      (Nat.le_trans hlength hlimit)
  · refine ⟨g, hread, ?_⟩
    intro v
    obtain ⟨a, _, hevaluate⟩ := Formula.exists_assignment f.vars v
    have hsame := hvalues a
    rw [hevaluate g hover, hevaluate m.minimized hagrees.minimized_over,
      hagrees.minimized_holds] at hsame
    exact Except.ok.inj hsame

end Minimization

/-- Exhaustive minimizations have the same terms exactly when their formulas have the same values.
The terms ask for nothing that does not matter, and the text of the minimized formula has the same
terms again. -/
theorem exhaustive_cover_is_canonical (s₁ s₂ : Settings) (hs₁ : s₁.exhaustive = true)
    (hs₂ : s₂.exhaustive = true) (text₁ text₂ : String) (m₁ m₂ : Minimization)
    (h₁ : minimize s₁ text₁ = .ok m₁) (h₂ : minimize s₂ text₂ = .ok m₂) :
    Formula.parse text₁ = .ok m₁.formula ∧ Formula.parse text₂ = .ok m₂.formula ∧
      (Formula.AgreeOver (m₁.vars ++ m₂.vars) m₁.formula m₂.formula ↔
        m₁.coverTerms = m₂.coverTerms) ∧
      (∀ c ∈ m₁.cover, ∃ a, c.toAssignment m₁.vars = .ok a ∧
        ∀ name ∈ a.names, m₁.formula.DependsOn name) ∧
      (s₁.script = .ascii →
        (∃ m, minimize s₁ m₁.minimizedText = .ok m) ∧
        ∀ s m, s.exhaustive = true → minimize s m₁.minimizedText = .ok m →
          m.coverTerms = m₁.coverTerms) := by
  obtain ⟨hparse₁, hlexemes₁, hempty₁, hm₁⟩ := minimize_cases h₁
  obtain ⟨hparse₂, _, hempty₂, hm₂⟩ := minimize_cases h₂
  refine ⟨hparse₁, hparse₂, ?_, ?_, ?_⟩
  · have hover₁ : m₁.formula.Over (m₁.vars ++ m₂.vars) :=
      (Formula.over_vars _ hempty₁).mono (List.subset_append_left _ _)
    have hover₂ : m₂.formula.Over (m₁.vars ++ m₂.vars) :=
      (Formula.over_vars _ hempty₂).mono (List.subset_append_right _ _)
    rw [Formula.agreeOver_iff hover₁ hover₂]
    exact (Minimization.coverTerms_eq_iff hempty₁ hm₁ hs₁ hempty₂ hm₂ hs₂).symm
  · exact Minimization.dependsOn_of_mem_cover hempty₁ hm₁ hs₁
  · intro hscript
    obtain ⟨hsome, g, hread, hholds⟩ :=
      Minimization.exists_minimize_minimizedText hlexemes₁ hempty₁ hm₁ hscript
    refine ⟨hsome, ?_⟩
    intro s m hs h
    obtain ⟨hparse, _, hempty, hm⟩ := minimize_cases h
    obtain rfl : g = m.formula := Except.ok.inj (hread.symm.trans hparse)
    exact (Minimization.coverTerms_eq_iff hempty hm hs hempty₁ hm₁ hs₁).mpr hholds

/-- A disjunction has the terms of its converse, also where the latter mentions another variable. -/
theorem exhaustive_cover_is_canonical_of_disjunction :
    let s : Settings := { Settings.usual with exhaustive := true }
    ∃ m₁ m₂ m₃, minimize s "x or y" = .ok m₁ ∧
      minimize s "(y or x) and (z or not z)" = .ok m₂ ∧
      minimize s m₁.minimizedText = .ok m₃ ∧
      m₁.coverTerms = m₂.coverTerms ∧ m₃.coverTerms = m₁.coverTerms := by
  intro s
  have hread₁ : Formula.parse "x or y" = .ok (.binary .or (.atom "x") (.atom "y")) := by cbv
  have hread₂ : Formula.parse "(y or x) and (z or not z)" =
      .ok (.binary .and (.binary .or (.atom "y") (.atom "x"))
        (.binary .or (.atom "z") (.not (.atom "z")))) := by
    clear hread₁
    cbv
  have hnames₁ : (Formula.binary .or (.atom "x") (.atom "y")).vars = ["x", "y"] :=
    (Formula.vars_eq_foldl _).trans (by decide)
  have hnames₂ : (Formula.binary .and (.binary .or (.atom "y") (.atom "x"))
      (.binary .or (.atom "z") (.not (.atom "z")))).vars = ["y", "x", "z"] :=
    (Formula.vars_eq_foldl _).trans (by decide)
  obtain ⟨m₁, hm₁⟩ := exists_minimize s hread₁ (by decide) (by rw [hnames₁]; decide)
  obtain ⟨m₂, hm₂⟩ := exists_minimize s hread₂ (by decide) (by rw [hnames₂]; decide)
  obtain ⟨hparse₁, hparse₂, hagree, _, hagain⟩ :=
    exhaustive_cover_is_canonical s s rfl rfl _ _ m₁ m₂ hm₁ hm₂
  rw [hread₁, Except.ok.injEq] at hparse₁
  rw [hread₂, Except.ok.injEq] at hparse₂
  rw [Minimization.vars, Minimization.vars, ← hparse₁, ← hparse₂, hnames₁, hnames₂,
    Formula.agreeOver_iff (by decide) (by decide)] at hagree
  obtain ⟨⟨m₃, hm₃⟩, hsame⟩ := hagain rfl
  refine ⟨m₁, m₂, m₃, hm₁, hm₂, hm₃, hagree.mp ?_, hsame s m₃ rfl hm₃⟩
  -- the disjunction of the third variable and its negation always holds
  intro v
  simp [Formula.holds, Bool.or_comm]

end CubeCover
