import CubeCover.Proofs.Formula.Names
import Mathlib.Data.List.Induction

/-! The walk that collects the variables of a formula, turn by turn. It ends after as many turns as it meets
formulas, and what it has found then are the names of the atoms from left to right, each where it first
occurs, without those that are no variables. -/
namespace CubeCover

/-- A walk over a formula on its way. -/
structure Walk where
  found : List String
  /-- The formulas still to be met, the next one first. -/
  stack : List Formula
  deriving DecidableEq

namespace Walk

def start (f : Formula) : Walk := ⟨[], [f]⟩

/-- One turn takes a formula off the stack. The name of an atom is noted; any other formula leaves its
operands in its place. -/
def next? (w : Walk) : Option Walk :=
  match w.stack with
  | [] => none
  | .atom name :: stack => some ⟨Formula.note w.found name, stack⟩
  | f :: stack => some ⟨w.found, f.operands ++ stack⟩

/-- The walk after some turns, if it takes so many. -/
def after (w : Walk) : Nat → Option Walk
  | 0 => some w
  | k + 1 => w.next?.bind fun w' => w'.after k

theorem after_succ_of_next? {w w' : Walk} (h : w.next? = some w') (k : Nat) :
    w.after (k + 1) = w'.after k := by
  rw [after, h]
  rfl

theorem next?_of_ne_atom {f : Formula} (hatom : ∀ name, f ≠ .atom name) (found : List String)
    (stack : List Formula) : next? ⟨found, f :: stack⟩ = some ⟨found, f.operands ++ stack⟩ := by
  cases f with
  | atom name => exact absurd rfl (hatom name)
  | not operand => rfl
  | binary op left right => rfl

/-- The stack is empty after as many turns as its size says, and the walk has found what it collects. -/
theorem after_stackSize (found : List String) (stack : List Formula) :
    (Walk.mk found stack).after (Formula.stackSize stack) =
      some ⟨Formula.collect found stack, []⟩ := by
  -- each turn lowers the size of the stack by one
  induction found, stack using Formula.collect.induct with
  | case1 found => rw [Formula.collect]; rfl
  | case2 found name stack ih =>
    have hsize : Formula.stackSize (.atom name :: stack) = Formula.stackSize stack + 1 :=
      Nat.add_comm 1 _
    have hturn : next? ⟨found, .atom name :: stack⟩ = some ⟨Formula.note found name, stack⟩ := rfl
    rw [hsize, after_succ_of_next? hturn, ih, Formula.collect]
  | case3 found f stack hatom ih =>
    have hsize : Formula.stackSize (f :: stack) = Formula.stackSize (f.operands ++ stack) + 1 := by
      have hoperands := Formula.stackSize_operands f
      rw [Formula.stackSize_append, Formula.stackSize]
      omega
    rw [hsize, after_succ_of_next? (next?_of_ne_atom hatom found stack), ih,
      Formula.collect_cons_of_ne_atom found hatom]

end Walk

namespace Formula

/-- Noting names one after the other keeps the variables among them, each where it first occurs. -/
theorem foldl_note_eq_eraseDups (names : List String) :
    names.foldl note [] = (names.filter isVariableName).eraseDups := by
  -- the last name is looked for among those before it
  induction names using List.reverseRecOn with
  | nil => rfl
  | append_singleton names last ih =>
    rw [List.foldl_append, ih, List.foldl_cons, List.foldl_nil, List.filter_append,
      List.eraseDups_append]
    by_cases hvariable : isVariableName last = true
    · by_cases hold : last ∈ names
      · simp [note, List.removeAll, hvariable, hold]
      · simp [note, List.removeAll, List.eraseDups_cons, hvariable, hold]
    · simp [note, List.removeAll, hvariable]

theorem isVariableName_iff (name : String) :
    isVariableName name = true ↔ name ≠ "" ∧ name ≠ "true" ∧ name ≠ "false" := by
  simp [isVariableName, isConstantName]

end Formula

/-- The walk over a formula ends, after one turn for each node of the tree and one more for each negation, and
yields the variables: the names of the atoms from left to right, each where it first occurs, without the empty
name and the constants. So no variable is listed twice, and all are listed. -/
theorem walk_collects_variables_in_order (f : Formula) :
    (Walk.start f).after f.size = some ⟨f.vars, []⟩ ∧
      f.vars = (f.atomNames.filter Formula.isVariableName).eraseDups ∧
      f.vars.Nodup ∧
      ∀ name, name ∈ f.vars ↔
        name ∈ f.atomNames ∧ name ≠ "" ∧ name ≠ "true" ∧ name ≠ "false" := by
  refine ⟨Walk.after_stackSize [] [f], ?_, Formula.nodup_vars f, ?_⟩
  · rw [Formula.vars_eq_foldl, Formula.foldl_note_eq_eraseDups]
  · intro name
    rw [Formula.mem_vars, Formula.isVariableName_iff]

/-- The walk over ¬(c ∨ a) ∧ (b ∧ a) meets nine formulas, the placeholder of the negation included. -/
example : (Walk.start (.binary .and (.not (.binary .or (.atom "c") (.atom "a")))
    (.binary .and (.atom "b") (.atom "a")))).after 9 = some ⟨["c", "a", "b"], []⟩ := by
  decide

end CubeCover
