import CubeCover.Formula.Printer
import CubeCover.Proofs.Formula.Names
import CubeCover.Proofs.Formula.RoundTrip
import CubeCover.Proofs.Formula.Truth

/-! Chains regrouped to the right. A printer that flattens writes what one that does not writes for
the regrouped formula, and the evaluation of a chain does not see how it is grouped. -/
namespace CubeCover

namespace Formula

/-- Joins two formulas, so that a chain of the connective on the left goes on to the right. -/
def attach (op : Connective) : Formula → Formula → Formula
  | .atom name, g => .binary op (.atom name) g
  | .not operand, g => .binary op (.not operand) g
  | .binary op' left right, g =>
    if op' = op then .binary op left (attach op right g)
    else .binary op (.binary op' left right) g

/-- Every chain of one connective is grouped to the right. -/
def regroup : Formula → Formula
  | .atom name => .atom name
  | .not operand => .not operand.regroup
  | .binary op left right => attach op left.regroup right.regroup

theorem precedence_attach (op : Connective) (f g : Formula) :
    (attach op f g).precedence = (Formula.binary op f g).precedence := by
  cases f with
  | atom name => rfl
  | not operand => rfl
  | binary op' left right =>
    -- whether the chain goes on or not, the connective stands at the root
    rw [attach]
    split
    · cases op <;> rfl
    · rfl

theorem precedence_regroup (f : Formula) : f.regroup.precedence = f.precedence := by
  cases f with
  | atom name => rfl
  | not operand => rfl
  | binary op left right =>
    rw [regroup, precedence_attach]
    cases op <;> rfl

theorem atomNames_attach (op : Connective) (f g : Formula) :
    (attach op f g).atomNames = f.atomNames ++ g.atomNames := by
  induction f with
  | atom name => rfl
  | not operand ih => rfl
  | binary op' left right ihleft ihright =>
    rw [attach]
    split
    · rw [atomNames, ihright, ← List.append_assoc]
      rfl
    · rfl

theorem atomNames_regroup (f : Formula) : f.regroup.atomNames = f.atomNames := by
  induction f with
  | atom name => rfl
  | not operand ih => exact ih
  | binary op left right ihleft ihright =>
    rw [regroup, atomNames_attach, ihleft, ihright]
    rfl

theorem evaluate_attach (op : Connective) (a : Assignment) (f g : Formula) :
    (attach op f g).evaluate a = (Formula.binary op f g).evaluate a := by
  induction f with
  | atom name => rfl
  | not operand ih => rfl
  | binary op' left right ihleft ihright =>
    rw [attach]
    split
    · rename_i h
      subst h
      rw [evaluate, ihright]
      simp only [evaluate]
      -- a left operand that settles the value settles it for both groupings
      cases left.evaluate a with
      | error e => rfl
      | ok value =>
        by_cases hvalue : value = op'.settling
        · simp [hvalue]
        · simp [hvalue]
    · rfl

/-- A regrouped formula has the truth value of the formula, or lacks the value of the same name. -/
theorem evaluate_regroup (a : Assignment) (f : Formula) : f.regroup.evaluate a = f.evaluate a := by
  induction f with
  | atom name => rfl
  | not operand ih => rw [regroup, evaluate, evaluate, ih]
  | binary op left right ihleft ihright =>
    rw [regroup, evaluate_attach, evaluate, evaluate, ihleft, ihright]

end Formula

namespace Printer

theorem join_assoc (symbol left middle right : String) :
    join symbol (join symbol left middle) right = join symbol left (join symbol middle right) := by
  unfold join
  split <;> simp only [String.append_assoc]

theorem wrapsRight_congr (op : Connective) {f g : Formula} (h : f.precedence = g.precedence) :
    wrapsRight op f = wrapsRight op g := by
  unfold wrapsRight
  rw [h]
  cases op <;> rfl

theorem wrapsLeft_eq_wrapsRight (p : Printer) (op : Connective) (f : Formula)
    (h : f.connective? ≠ some op ∨ p.flatten = true) : p.wrapsLeft op f = wrapsRight op f := by
  have hapart : (f.connective? == some op && !p.flatten) = false := by
    rcases h with h | h
    · simp [h]
    · simp [h]
  rw [wrapsLeft, hapart, Bool.or_false]
  rfl

theorem render_attach (s : Symbols) (op : Connective) (f g : Formula) :
    (Printer.mk s false).render (Formula.attach op f g) =
      join (s.ofConnective op)
        (parenthesize (wrapsRight op f) ((Printer.mk s false).render f))
        (parenthesize (wrapsRight op g) ((Printer.mk s false).render g)) := by
  induction f with
  | atom name => cases op <;> rfl
  | not operand ih => cases op <;> rfl
  | binary op' left right ihleft ihright =>
    rw [Formula.attach]
    split
    · rename_i h
      subst h
      have hchain (h : Formula) : wrapsRight op' (.binary op' left h) = false := by
        cases op' <;> rfl
      have hattach : wrapsRight op' (Formula.attach op' right g) = false := by
        rw [wrapsRight_congr op' (Formula.precedence_attach op' right g)]
        cases op' <;> rfl
      -- the right operand has its part of the chain already, by induction
      rw [hchain, render, render, hattach, ihright]
      exact (join_assoc _ _ _ _).symm
    · -- no chain of the connective starts on the left
      rename_i h
      rw [render, wrapsLeft_eq_wrapsRight]
      exact Or.inl fun hroot => h (Option.some.inj hroot)

/-- A printer that flattens prints the regrouped formula. -/
theorem render_regroup (s : Symbols) (f : Formula) :
    (Printer.mk s true).render f = (Printer.mk s false).render f.regroup := by
  induction f with
  | atom name => rfl
  | not operand ih =>
    rw [Formula.regroup, render, render, ih, Formula.precedence_regroup]
    rfl
  | binary op left right ihleft ihright =>
    have hleft : (Printer.mk s true).wrapsLeft op left = wrapsRight op left.regroup := by
      rw [wrapsLeft_eq_wrapsRight _ _ _ (Or.inr rfl)]
      exact wrapsRight_congr op (Formula.precedence_regroup left).symm
    have hright : wrapsRight op right = wrapsRight op right.regroup :=
      wrapsRight_congr op (Formula.precedence_regroup right).symm
    rw [render, ihleft, ihright, hleft, hright, Formula.regroup, render_attach]

end Printer

namespace Formula

/-- The text of a printer that flattens is read as the regrouped formula. -/
theorem parse_flattened {f : Formula} (h : ∀ name ∈ f.atomNames, IsLexeme name) :
    parse ((Printer.mk Script.ascii.symbols true).render f) = .ok f.regroup := by
  rw [Printer.render_regroup]
  apply parse_toText
  rw [atomNames_regroup]
  exact h

/-- Either kind of printer writes a text that is read as a formula of the same names and values. -/
theorem parse_render (flatten : Bool) (f : Formula) (h : ∀ name ∈ f.atomNames, IsLexeme name) :
    ∃ g, parse ((Printer.mk Script.ascii.symbols flatten).render f) = .ok g ∧
      g.atomNames = f.atomNames ∧ ∀ a, g.evaluate a = f.evaluate a := by
  cases flatten with
  | false => exact ⟨f, parse_toText f h, rfl, fun _ => rfl⟩
  | true => exact ⟨f.regroup, parse_flattened h, atomNames_regroup f, fun a => evaluate_regroup a f⟩

/-- A formula over lexemes is printed as a text that is read as a formula over them again. -/
theorem parse_render_of_over (flatten : Bool) (names : List String)
    (hlexemes : ∀ name ∈ names, IsLexeme name) (f : Formula) (hf : f.Over names) :
    ∃ g, parse ((Printer.mk Script.ascii.symbols flatten).render f) = .ok g ∧ g.Over names ∧
      ∀ a, g.evaluate a = f.evaluate a := by
  have hnames : ∀ name ∈ f.atomNames, IsLexeme name := by
    intro name hname
    rcases hf name hname with hconstant | hvar
    · exact isLexeme_of_isConstantName name hconstant
    · exact hlexemes name hvar
  obtain ⟨g, hparse, hsame, hvalues⟩ := parse_render flatten f hnames
  refine ⟨g, hparse, ?_, hvalues⟩
  intro name hname
  exact hf name (hsame ▸ hname)

end Formula

end CubeCover
