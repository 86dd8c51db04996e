import CubeCover.Cube.Formula
import CubeCover.Formula.Parser
import CubeCover.Formula.Printer
import CubeCover.Settings
import CubeCover.Table.Consensus

/-! Minimization of a formula: its satisfying assignments become the seeds of a consensus table, and
the active rows at the end are the terms of the minimized formula. -/
namespace CubeCover

inductive MinimizeError
  | parse (e : ParseError)
  | tooManyVariables (count limit : Nat)
  | unbound (e : Unbound)
  | seeds (e : SeedError)
  | shape (e : ShapeMismatch)
  deriving DecidableEq, Repr

/-- What a limit on the variables says of a formula that exceeds it. -/
def MinimizeError.limitMessage (count limit : Nat) : String :=
  "Formula has " ++ toString count ++ " variables, the configured maximum is " ++ toString limit

def MinimizeError.message : MinimizeError → String
  | parse e => e.message
  | tooManyVariables count limit => limitMessage count limit
  | unbound e => e.message
  | seeds e => e.message
  | shape e => e.message

/-- A formula with its minimized form and what lies between. -/
structure Minimization where
  printer : Printer
  formula : Formula
  /-- The satisfying assignments. -/
  terms : List Assignment
  /-- The consensus run; an unsatisfiable formula has none. -/
  run? : Option Run
  minimized : Formula

namespace Minimization

def vars (m : Minimization) : List String := m.formula.vars

/-- The disjunctive normal form. -/
def dnf (m : Minimization) : Formula := .ofProductTerms m.terms

def formulaText (m : Minimization) : String := m.printer.render m.formula

def dnfText (m : Minimization) : String := m.printer.render m.dnf

def minimizedText (m : Minimization) : String := m.printer.render m.minimized

def isUnsatisfiable (m : Minimization) : Bool := m.terms.isEmpty

/-- Whether the normal form is printed in another way than the formula. -/
def dnfDiffers (m : Minimization) : Bool := m.dnfText != m.formulaText

def table? (m : Minimization) : Option Table := m.run?.map Run.table

/-- The cubes of the terms that are left. -/
def cover (m : Minimization) : List Cube :=
  match m.table? with
  | none => []
  | some table => table.survivors

/-- Runs the consensus procedure on some satisfying assignments, and forms the sum of the cubes that
survive. -/
def reduce (exhaustive : Bool) (names : List String) (terms : List Assignment) :
    Except MinimizeError (Run × Formula) :=
  match Table.ofSeeds (terms.map Cube.ofAssignment) with
  | .error e => .error (.seeds e)
  | .ok table =>
    let run := table.run exhaustive
    match run.fault? with
    | some e => .error (.shape e)
    | none =>
      match Formula.ofCubes names run.table.survivors with
      | .error e => .error (.shape e)
      | .ok minimized => .ok (run, minimized)

def ofFormula (s : Settings) (f : Formula) : Except MinimizeError Minimization :=
  let printer : Printer := ⟨s.script.symbols, s.flatten⟩
  if s.maxVariables < f.vars.length then
    .error (.tooManyVariables f.vars.length s.maxVariables)
  else
    match f.productTerms with
    | .error e => .error (.unbound e)
    | .ok [] => .ok ⟨printer, f, [], none, .falsum⟩
    | .ok terms =>
      match reduce s.exhaustive f.vars terms with
      | .error e => .error e
      | .ok (run, minimized) => .ok ⟨printer, f, terms, some run, minimized⟩

end Minimization

/-- Reads a formula and minimizes it. -/
def minimize (s : Settings) (text : String) : Except MinimizeError Minimization :=
  match Formula.parse text with
  | .error e => .error (.parse e)
  | .ok f => Minimization.ofFormula s f

end CubeCover
