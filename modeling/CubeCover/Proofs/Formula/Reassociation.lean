import CubeCover.Proofs.Formula.Regroup

/-! Formulas that differ by the grouping of chains alone. They are those with the same regrouped formula,
which is the only one among them whose chains all group to the right. A printer that flattens forgets the
grouping and nothing else: its text is read as that formula. -/
namespace CubeCover

namespace Formula

/-- One formula comes from the other by moving the parentheses of chains of one connective, at any places
and as often as one likes. -/
inductive Reassociates : Formula → Formula → Prop
  | refl (f : Formula) : Reassociates f f
  | symm {f g : Formula} (h : Reassociates f g) : Reassociates g f
  | trans {f g h : Formula} (hfg : Reassociates f g) (hgh : Reassociates g h) : Reassociates f h
  | rotate (op : Connective) (f g h : Formula) :
      Reassociates (.binary op (.binary op f g) h) (.binary op f (.binary op g h))
  | not {f g : Formula} (h : Reassociates f g) : Reassociates (.not f) (.not g)
  | binary (op : Connective) {f f' g g' : Formula} (hleft : Reassociates f f')
      (hright : Reassociates g g') : Reassociates (.binary op f g) (.binary op f' g')

/-- No left operand goes on with the chain of its connective. -/
def RightGrouped : Formula → Prop
  | .atom _ => True
  | .not operand => operand.RightGrouped
  | .binary op left right => left.connective? ≠ some op ∧ left.RightGrouped ∧ right.RightGrouped

theorem attach_of_ne {op : Connective} {f : Formula} (h : f.connective? ≠ some op) (g : Formula) :
    attach op f g = .binary op f g := by
  cases f with
  | atom name => rfl
  | not operand => rfl
  | binary op' left right =>
    have hne : op' ≠ op := fun heq => h (congrArg some heq)
    rw [attach, if_neg hne]

theorem attach_assoc (op : Connective) (f g h : Formula) :
    attach op (attach op f g) h = attach op f (attach op g h) := by
  induction f with
  | atom name => simp only [attach, if_true]
  | not operand ih => simp only [attach, if_true]
  | binary op' left right ihleft ihright =>
    by_cases heq : op' = op
    · simp only [attach, if_pos heq, if_true, ihright]
    · simp only [attach, if_neg heq, if_true]

theorem rightGrouped_attach {op : Connective} {f g : Formula} (hf : f.RightGrouped)
    (hg : g.RightGrouped) : (attach op f g).RightGrouped := by
  induction f with
  | atom name => exact ⟨by simp [connective?], hf, hg⟩
  | not operand ih => exact ⟨by simp [connective?], hf, hg⟩
  | binary op' left right ihleft ihright =>
    rw [attach]
    split
    · -- the chain goes on in the right operand, where its last link meets `g`
      rename_i heq
      subst heq
      exact ⟨hf.1, hf.2.1, ihright hf.2.2⟩
    · rename_i hne
      exact ⟨fun hroot => hne (Option.some.inj hroot), hf, hg⟩

theorem rightGrouped_regroup (f : Formula) : f.regroup.RightGrouped := by
  induction f with
  | atom name => trivial
  | not operand ih => exact ih
  | binary op left right ihleft ihright => exact rightGrouped_attach ihleft ihright

theorem regroup_of_rightGrouped {f : Formula} (h : f.RightGrouped) : f.regroup = f := by
  induction f with
  | atom name => rfl
  | not operand ih => rw [regroup, ih h]
  | binary op left right ihleft ihright =>
    rw [regroup, ihleft h.2.1, ihright h.2.2]
    exact attach_of_ne h.1 right

theorem reassociates_attach (op : Connective) (f g : Formula) :
    Reassociates (.binary op f g) (attach op f g) := by
  induction f with
  | atom name => exact .refl _
  | not operand ih => exact .refl _
  | binary op' left right ihleft ihright =>
    rw [attach]
    split
    · -- one rotation at the root, and the rest happens in the right operand
      rename_i heq
      subst heq
      apply Reassociates.trans (.rotate op' left right g)
      exact .binary op' (.refl left) ihright
    · exact .refl _

theorem reassociates_regroup (f : Formula) : f.Reassociates f.regroup := by
  induction f with
  | atom name => exact .refl _
  | not operand ih => exact .not ih
  | binary op left right ihleft ihright =>
    exact .trans (.binary op ihleft ihright) (reassociates_attach op left.regroup right.regroup)

/-- Two formulas differ by the grouping of chains alone just if they are regrouped to the same formula. -/
theorem reassociates_iff (f g : Formula) : f.Reassociates g ↔ f.regroup = g.regroup := by
  constructor
  · intro h
    induction h with
    | refl f => rfl
    | symm _ ih => exact ih.symm
    | trans _ _ ihfg ihgh => exact ihfg.trans ihgh
    | rotate op f g h => exact attach_assoc op f.regroup g.regroup h.regroup
    | not _ ih => exact congrArg Formula.not ih
    | binary op _ _ ihleft ihright => rw [regroup, regroup, ihleft, ihright]
  · intro h
    -- both lead to the regrouped formula
    have hback : g.regroup.Reassociates g := (reassociates_regroup g).symm
    exact (reassociates_regroup f).trans (h ▸ hback)

/-- Of the formulas that differ by the grouping alone, one is grouped to the right. -/
theorem eq_regroup_of_rightGrouped {f g : Formula} (h : f.Reassociates g) (hg : g.RightGrouped) :
    g = f.regroup := by
  calc g
      = g.regroup := (regroup_of_rightGrouped hg).symm
    _ = f.regroup := ((reassociates_iff f g).mp h).symm

theorem vars_regroup (f : Formula) : f.regroup.vars = f.vars := by
  rw [vars_eq_foldl, vars_eq_foldl, atomNames_regroup]

end Formula

/-- The flattened text of a formula over lexemes is read as the one formula that differs from it by the
grouping of chains alone and groups all of them to the right. The atoms stay in their order, so the
variables do; and under every assignment, a partial one as well, both have the same truth value or lack
the value of the same name. -/
theorem flattening_regroups_chains (f : Formula) (h : ∀ name ∈ f.atomNames, IsLexeme name) :
    ∃ g, Formula.parse ((Printer.mk Script.ascii.symbols true).render f) = .ok g ∧
      f.Reassociates g ∧ g.RightGrouped ∧
      (∀ g', f.Reassociates g' → g'.RightGrouped → g' = g) ∧
      g.atomNames = f.atomNames ∧ g.vars = f.vars ∧
      ∀ a : Assignment, g.evaluate a = f.evaluate a := by
  refine ⟨f.regroup, Formula.parse_flattened h, Formula.reassociates_regroup f,
    Formula.rightGrouped_regroup f, ?_, Formula.atomNames_regroup f, Formula.vars_regroup f,
    fun a => Formula.evaluate_regroup a f⟩
  intro g' hsame hgrouped
  exact Formula.eq_regroup_of_rightGrouped hsame hgrouped

/-- A chain that groups to the left, with a chain inside a negation. Its flattened text is read as the
formula that groups both to the right; without a value for `q` both lack that value. -/
theorem flattening_regroups_left_chains :
    let f : Formula := .binary .and (.binary .and (.atom "x") (.atom "true"))
      (.not (.binary .or (.binary .or (.atom "p") (.atom "q")) (.atom "x")))
    let g : Formula := .binary .and (.atom "x") (.binary .and (.atom "true")
      (.not (.binary .or (.atom "p") (.binary .or (.atom "q") (.atom "x")))))
    (Printer.mk Script.ascii.symbols true).render f = "x and true and not (p or q or x)" ∧
      Formula.parse "x and true and not (p or q or x)" = .ok g ∧ g ≠ f ∧ g.vars = f.vars ∧
      g.evaluate (Bindings.ofList [("p", false), ("x", true)]) = .error ⟨"q"⟩ ∧
      f.evaluate (Bindings.ofList [("p", false), ("x", true)]) = .error ⟨"q"⟩ := by
  intro f g
  have htext : (Printer.mk Script.ascii.symbols true).render f =
      "x and true and not (p or q or x)" := by rfl
  have hread : Formula.parse "x and true and not (p or q or x)" = .ok g := by
    clear htext
    cbv
  have hlexemes : ∀ name ∈ f.atomNames, IsLexeme name := by
    have hnames : g.atomNames = f.atomNames := rfl
    intro name hname
    exact Formula.isLexeme_of_parse _ g hread name (hnames ▸ hname)
  obtain ⟨g', hparse, _, _, _, _, hvars, hvalues⟩ := flattening_regroups_chains f hlexemes
  rw [htext, hread, Except.ok.injEq] at hparse
  subst hparse
  have hlacks : f.evaluate (Bindings.ofList [("p", false), ("x", true)]) = .error ⟨"q"⟩ := by decide
  exact ⟨htext, hread, by decide, hvars, (hvalues _).trans hlacks, hlacks⟩

end CubeCover
