import CubeCover.Proofs.Formula.Equivalence
import CubeCover.Proofs.Formula.NormalForm
import CubeCover.Proofs.Formula.RoundTrip

/-! The normal form keeps the values and the variables of a satisfiable formula, and depends on
nothing else, so that it is a canonical form. -/
namespace CubeCover

namespace Formula

theorem atomNames_foldl (op : Connective) (fs : List Formula) (f : Formula) :
    (fs.foldl (.binary op) f).atomNames = f.atomNames ++ fs.flatMap atomNames := by
  induction fs generalizing f with
  | nil => simp
  | cons first fs ih =>
    rw [List.foldl_cons, ih, atomNames, List.flatMap_cons, List.append_assoc]

/-- The variables of joined formulas are those of the formulas one after the other; the constant that
stands for none adds nothing. -/
theorem foldl_note_joinAll (op : Connective) (unit : Formula)
    (hunit : ∀ found, unit.atomNames.foldl note found = found) (fs : List Formula)
    (found : List String) :
    (joinAll op unit fs).atomNames.foldl note found =
      (fs.flatMap atomNames).foldl note found := by
  cases fs with
  | nil => exact hunit found
  | cons first fs => rw [joinAll, atomNames_foldl, List.flatMap_cons]

theorem foldl_note_ofAssignment (a : Assignment) (found : List String) :
    (ofAssignment a).atomNames.foldl note found = a.names.foldl note found := by
  have hliteral (entry : String × Bool) :
      (literal entry.1 entry.2).atomNames = [entry.1] := by
    cases hvalue : entry.2 <;> rfl
  have hnames : (a.entries.map fun entry => literal entry.1 entry.2).flatMap atomNames =
      a.names := by
    rw [List.flatMap_map, Bindings.names, List.map_eq_flatMap]
    exact congrArg (a.entries.flatMap ·) (funext hliteral)
  rw [ofAssignment, conjunction, foldl_note_joinAll .and verum fun _ => rfl, hnames]

theorem vars_ofProductTerms (terms : List Assignment) :
    (ofProductTerms terms).vars = (terms.flatMap Bindings.names).foldl note [] := by
  have hterms (found : List String) :
      ((terms.map ofAssignment).flatMap atomNames).foldl note found =
        (terms.flatMap Bindings.names).foldl note found := by
    induction terms generalizing found with
    | nil => rfl
    | cons first terms ih =>
      rw [List.map_cons, List.flatMap_cons, List.flatMap_cons, List.foldl_append,
        List.foldl_append, foldl_note_ofAssignment, ih]
  rw [vars_eq_foldl, ofProductTerms, disjunction, foldl_note_joinAll .or falsum fun _ => rfl,
    hterms]

/-- Terms of the same names have them in a sum in the same order: the first term finds all. -/
theorem vars_of_terms (names : List String) (h : names.Nodup)
    (hvariables : ∀ name ∈ names, isVariableName name = true) (terms : List Assignment)
    (hne : terms ≠ []) (hterms : ∀ a ∈ terms, a.names = names) :
    (ofProductTerms terms).vars = names := by
  cases terms with
  | nil => exact absurd rfl hne
  | cons first rest =>
    have hfirst : first.names.foldl note [] = names := by
      rw [hterms first List.mem_cons_self, foldl_note_of_nodup names [] h hvariables]
      rfl
    have hrest : rest.flatMap Bindings.names ⊆ names := by
      intro name hname
      obtain ⟨a, ha, hmem⟩ := List.mem_flatMap.mp hname
      exact hterms a (List.mem_cons_of_mem first ha) ▸ hmem
    rw [vars_ofProductTerms, List.flatMap_cons, List.foldl_append, hfirst,
      foldl_note_of_subset _ names hrest]

/-- The normal form of a formula without the atom that has no name. -/
theorem normalForm_spec (f : Formula) (h : "" ∉ f.atomNames) :
    ∃ d, f.normalForm = .ok d ∧ d.Over f.vars ∧ (∀ v, d.holds v = f.holds v) ∧
      (f.Satisfiable → d.vars = f.vars) ∧ (¬ f.Satisfiable → d = falsum) := by
  have hover := over_vars f h
  obtain ⟨terms, hproduct, hterms⟩ := productTerms_spec f h
  have hnames (a : Assignment) (ha : a ∈ terms) : a.names = f.vars := ((hterms a).mp ha).1
  refine ⟨ofProductTerms terms, by rw [normalForm, hproduct], ?_,
    holds_of_terms f hover terms hterms, ?_, ?_⟩
  · apply over_ofProductTerms
    intro a ha
    rw [hnames a ha]
    exact List.Subset.refl _
  · intro hsatisfiable
    apply vars_of_terms f.vars (nodup_vars f) _ terms _ hnames
    · intro name hname
      exact ((mem_vars f name).mp hname).2
    · -- the row of the valuation that satisfies the formula is a term
      obtain ⟨v, hv⟩ := (satisfiable_iff hover).mp hsatisfiable
      obtain ⟨a, ha, hvalue⟩ := Assignment.exists_of_valuation f.vars (nodup_vars f) v
      have hholds := (holds_congr f.vars f hover a.value v hvalue).trans hv
      exact List.ne_nil_of_mem ((hterms a).mpr ⟨ha, hholds⟩)
  · intro hunsatisfiable
    have hnil : terms = [] := by
      rw [List.eq_nil_iff_forall_not_mem]
      intro a ha
      exact hunsatisfiable ((satisfiable_iff hover).mpr ⟨a.value, ((hterms a).mp ha).2⟩)
    rw [hnil]
    rfl

theorem empty_notMem_of_over (f d : Formula) (h : d.Over f.vars) : "" ∉ d.atomNames := by
  intro hmem
  rcases h "" hmem with hconstant | hvar
  · exact absurd hconstant (by decide)
  · exact absurd ((mem_vars f "").mp hvar).2 (by decide)

theorem normalForm_congr (f g : Formula) (hf : "" ∉ f.atomNames) (hg : "" ∉ g.atomNames)
    (hvars : f.vars = g.vars) (hholds : ∀ v, f.holds v = g.holds v) :
    f.normalForm = g.normalForm := by
  have hterms : f.productTerms = g.productTerms := by
    rw [productTerms_eq f hf, productTerms_eq g hg, hvars]
    simp only [hholds]
  rw [normalForm, normalForm, hterms]

theorem normalForm_eq_iff (f g : Formula) (hf : "" ∉ f.atomNames) (hg : "" ∉ g.atomNames) :
    f.normalForm = g.normalForm ↔
      (¬ f.Satisfiable ∧ ¬ g.Satisfiable) ∨
        (f.Satisfiable ∧ g.Satisfiable ∧ f.vars = g.vars ∧ AgreeOver f.vars f g) := by
  have hoverf := over_vars f hf
  have hoverg := over_vars g hg
  obtain ⟨d, hd, _, hholdsd, hvarsd, hfalsumd⟩ := normalForm_spec f hf
  obtain ⟨e, he, _, hholdse, hvarse, hfalsume⟩ := normalForm_spec g hg
  constructor
  · intro hsame
    -- the common normal form has the values of both formulas, and their variables
    have hde : d = e := Except.ok.inj (hd.symm.trans (hsame.trans he))
    have hholds (v : String → Bool) : f.holds v = g.holds v := by
      rw [← hholdsd, ← hholdse, hde]
    have hiff := satisfiable_congr hoverf hoverg hholds
    by_cases hsatisfiable : f.Satisfiable
    · have hvars : f.vars = g.vars := by
        rw [← hvarsd hsatisfiable, ← hvarse (hiff.mp hsatisfiable), hde]
      exact Or.inr ⟨hsatisfiable, hiff.mp hsatisfiable, hvars,
        (agreeOver_iff hoverf (hvars ▸ hoverg)).mpr hholds⟩
    · exact Or.inl ⟨hsatisfiable, fun h => hsatisfiable (hiff.mpr h)⟩
  · rintro (⟨hnotf, hnotg⟩ | ⟨_, _, hvars, hagree⟩)
    · rw [hd, he, hfalsumd hnotf, hfalsume hnotg]
    · exact normalForm_congr f g hf hg hvars
        ((agreeOver_iff hoverf (hvars ▸ hoverg)).mp hagree)

theorem normalForm_of_normalForm (f d : Formula) (h : "" ∉ f.atomNames)
    (hd : f.normalForm = .ok d) : d.normalForm = .ok d := by
  obtain ⟨d', hd', hover, hholds, hvars, hfalsum⟩ := normalForm_spec f h
  obtain rfl : d = d' := Except.ok.inj (hd.symm.trans hd')
  have hoverf := over_vars f h
  have hiff := satisfiable_congr hover hoverf hholds
  rw [← hd, normalForm_eq_iff d f (empty_notMem_of_over f d hover) h]
  by_cases hsatisfiable : f.Satisfiable
  · have hagree := (agreeOver_iff hover hoverf).mpr hholds
    rw [hvars hsatisfiable]
    exact Or.inr ⟨hiff.mpr hsatisfiable, hsatisfiable, rfl, hagree⟩
  · exact Or.inl ⟨fun hd => hsatisfiable (hiff.mp hd), hsatisfiable⟩

end Formula

/-- Every formula without the atom that has no name has a normal form, which has the same values and,
if some assignment satisfies the formula, the same variables; otherwise it is the constant. No text
is read as a formula with that atom. -/
theorem normalForm_keeps_values_and_variables :
    (∀ f : Formula, "" ∉ f.atomNames → ∃ d, f.normalForm = .ok d ∧
      (∀ a : Assignment, f.vars ⊆ a.names →
        ∃ value, f.evaluate a = .ok value ∧ d.evaluate a = .ok value) ∧
      (f.Satisfiable → d.vars = f.vars) ∧ (¬ f.Satisfiable → d = .falsum)) ∧
    ∀ (text : String) (f : Formula), Formula.parse text = .ok f → "" ∉ f.atomNames := by
  constructor
  · intro f h
    obtain ⟨d, hd, hover, hholds, hvars, hfalsum⟩ := Formula.normalForm_spec f h
    refine ⟨d, hd, ?_, hvars, hfalsum⟩
    intro a ha
    refine ⟨f.holds a.value, Formula.evaluate_eq_holds f.vars f (Formula.over_vars f h) a ha, ?_⟩
    rw [Formula.evaluate_eq_holds f.vars d hover a ha, hholds]
  · intro text f hread hmem
    exact not_isLexeme_empty (Formula.isLexeme_of_parse text f hread "" hmem)

/-- The second variable occurs only under a negation, and the assignment has a name too many. -/
theorem normalForm_keeps_values_of_disjunction :
    ∃ d, (Formula.binary .or (.atom "y") (.not (.atom "x"))).normalForm = .ok d ∧
      d.evaluate (Bindings.ofList [("x", false), ("z", true), ("y", false)]) = .ok true ∧
      d.vars = ["y", "x"] := by
  have hnames : (Formula.binary .or (.atom "y") (.not (.atom "x"))).vars = ["y", "x"] := by
    rw [Formula.vars_eq_foldl]
    decide
  obtain ⟨d, hd, hvalues, hvars, _⟩ := normalForm_keeps_values_and_variables.1
    (.binary .or (.atom "y") (.not (.atom "x"))) (by decide)
  obtain ⟨value, hf, hvalue⟩ := hvalues
    (Bindings.ofList [("x", false), ("z", true), ("y", false)]) (hnames ▸ by decide)
  have htrue : value = true := (Except.ok.inj hf).symm
  exact ⟨d, hd, htrue ▸ hvalue, (hvars ⟨_, htrue ▸ hf⟩).trans hnames⟩

/-- Two formulas have the same normal form just if neither is satisfiable, or if both are and they
have the same variables in the same order and the same values. A normal form is its own. -/
theorem normalForm_is_canonical (f g : Formula) (hf : "" ∉ f.atomNames) (hg : "" ∉ g.atomNames) :
    ∃ d e, f.normalForm = .ok d ∧ g.normalForm = .ok e ∧
      (d = e ↔ (¬ f.Satisfiable ∧ ¬ g.Satisfiable) ∨
        (f.Satisfiable ∧ g.Satisfiable ∧ f.vars = g.vars ∧ Formula.AgreeOver f.vars f g)) ∧
      d.normalForm = .ok d := by
  obtain ⟨d, hd, _⟩ := Formula.normalForm_spec f hf
  obtain ⟨e, he, _⟩ := Formula.normalForm_spec g hg
  refine ⟨d, e, hd, he, ?_, Formula.normalForm_of_normalForm f d hf hd⟩
  rw [← Formula.normalForm_eq_iff f g hf hg, hd, he, Except.ok.injEq]

/-- A negation moved inwards leaves the normal form as it is. Operands that change places do not:
the variables then come in another order. -/
theorem normalForm_is_canonical_of_negation :
    (Formula.not (.binary .and (.atom "x") (.atom "y"))).normalForm =
        (Formula.binary .or (.not (.atom "x")) (.not (.atom "y"))).normalForm ∧
      (Formula.not (.binary .and (.atom "x") (.atom "y"))).normalForm ≠
        (Formula.not (.binary .and (.atom "y") (.atom "x"))).normalForm := by
  have hvars (f : Formula) (names : List String) (h : f.atomNames.foldl Formula.note [] = names) :
      f.vars = names := (Formula.vars_eq_foldl f).trans h
  have hfirst := hvars (.not (.binary .and (.atom "x") (.atom "y"))) ["x", "y"] (by decide)
  have hsatisfiable : (Formula.not (.binary .and (.atom "x") (.atom "y"))).Satisfiable :=
    ⟨Bindings.ofList [("x", false)], rfl⟩
  constructor
  · have hmoved := hvars (.binary .or (.not (.atom "x")) (.not (.atom "y"))) ["x", "y"] (by decide)
    obtain ⟨d, e, hd, he, hiff, _⟩ := normalForm_is_canonical
      (.not (.binary .and (.atom "x") (.atom "y")))
      (.binary .or (.not (.atom "x")) (.not (.atom "y"))) (by decide) (by decide)
    rw [hd, he, hiff.mpr (Or.inr ⟨hsatisfiable, ⟨Bindings.ofList [("x", false)], rfl⟩,
      hfirst.trans hmoved.symm, ?_⟩)]
    rw [hfirst, Formula.agreeOver_iff (by decide) (by decide)]
    intro v
    exact Bool.not_and _ _
  · have hexchanged := hvars (.not (.binary .and (.atom "y") (.atom "x"))) ["y", "x"] (by decide)
    obtain ⟨d, e, hd, he, hiff, _⟩ := normalForm_is_canonical
      (.not (.binary .and (.atom "x") (.atom "y")))
      (.not (.binary .and (.atom "y") (.atom "x"))) (by decide) (by decide)
    rw [hd, he, Ne, Except.ok.injEq, hiff, hfirst, hexchanged]
    rintro (⟨hnot, _⟩ | ⟨_, _, hnames, _⟩)
    · exact hnot hsatisfiable
    · exact absurd hnames (by decide)

end CubeCover
