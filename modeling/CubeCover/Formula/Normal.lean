import CubeCover.Formula.Basic

/-! Truth tables and the canonical disjunctive normal form: one product term for each satisfying
assignment, in the order of the truth table. -/
namespace CubeCover

/-- The assignment of a row of the truth table: the name at place `j` is true if bit `j` of the row
number is set. -/
def Assignment.ofIndex (names : List String) (i : Nat) : Assignment :=
  Bindings.ofList (names.zipIdx.map fun entry => (entry.1, i.testBit entry.2))

/-- All assignments to some names, so that the first name changes fastest. -/
def Assignment.all (names : List String) : List Assignment :=
  (List.range (Nat.pow 2 names.length)).map (ofIndex names)

namespace Formula

/-- The assignments of a list under which a formula is true. -/
def select (f : Formula) : List Assignment → Except Unbound (List Assignment)
  | [] => .ok []
  | a :: rest =>
    match f.evaluate a with
    | .error e => .error e
    | .ok value =>
      match f.select rest with
      | .error e => .error e
      | .ok selected => .ok (if value then a :: selected else selected)

/-- The assignments to the variables of a formula that make it true. -/
def trueAssignments (f : Formula) : Except Unbound (List Assignment) :=
  f.select (Assignment.all f.vars)

/-- Each member once, at its first place. -/
def distinct (terms : List Assignment) : List Assignment :=
  (terms.foldl (fun kept a => if kept.contains a then kept else a :: kept) []).reverse

/-- The satisfying assignments, none twice. -/
def productTerms (f : Formula) : Except Unbound (List Assignment) :=
  match f.trueAssignments with
  | .error e => .error e
  | .ok terms => .ok (distinct terms)

/-- Joins formulas with a connective, grouped to the left; `unit` stands for none at all. -/
def joinAll (op : Connective) (unit : Formula) : List Formula → Formula
  | [] => unit
  | f :: rest => rest.foldl (.binary op) f

/-- The conjunction of some formulas, true if there is none. -/
def conjunction : List Formula → Formula := joinAll .and verum

/-- The disjunction of some formulas, false if there is none. -/
def disjunction : List Formula → Formula := joinAll .or falsum

/-- A variable, or its negation if its value is false. -/
def literal (name : String) (value : Bool) : Formula :=
  if value then .atom name else .not (.atom name)

/-- The conjunction of the literals that an assignment makes true. -/
def ofAssignment (a : Assignment) : Formula :=
  conjunction (a.entries.map fun entry => literal entry.1 entry.2)

def ofProductTerms (terms : List Assignment) : Formula := disjunction (terms.map ofAssignment)

/-- The disjunctive normal form, false for a formula that no assignment satisfies. -/
def normalForm (f : Formula) : Except Unbound Formula :=
  match f.productTerms with
  | .error e => .error e
  | .ok terms => .ok (ofProductTerms terms)

/-- No assignment satisfies the formula. -/
def isUnsatisfiable (f : Formula) : Except Unbound Bool :=
  match f.trueAssignments with
  | .error e => .error e
  | .ok terms => .ok terms.isEmpty

end Formula

end CubeCover
