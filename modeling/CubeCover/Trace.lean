import CubeCover.Log
import CubeCover.Minimize

/-! What the stages of a minimization tell in the log. -/
namespace CubeCover

/-- A row that is appended, its parents and its canceller as the table shows them. -/
def Entry.rowAppended (number : Int) (cube formedBy cancelledBy : String) : Entry :=
  .debug ("      ➕ row " ++ toString number ++ " " ++ cube ++ " formed by " ++ formedBy
    ++ ", cancelled by " ++ cancelledBy)

def Entry.rowCancelled (number : Int) (cube : String) (canceller : Int) : Entry :=
  .debug ("      ✂️  row " ++ toString number ++ " " ++ cube ++ " cancelled by row "
    ++ toString canceller)

/-- The head of a report; variables are named only if there is something to name. -/
def Entry.reportHead (formula : String) (names? : Option String) : List Entry :=
  [.info "=== Quincy Minimization ===", .info ("📋 Formula: " ++ formula)] ++
    match names? with
    | none => []
    | some names => if names = "" then [] else [.info ("🔤 Variables: " ++ names)]

def Entry.coverFound (cover : String) (size : Int) : Entry :=
  .info ("\n>>> COVER (" ++ toString size ++ " term" ++ (if size = 1 then "" else "s") ++ "): "
    ++ cover ++ " <<<")

def Event.entry : Event → Entry
  | cancelled number cube canceller => .rowCancelled number cube.toText canceller
  | appended row =>
    .rowAppended row.number row.cube.toText (",".intercalate (row.formedBy.map toString))
      (match row.cancelledBy with
      | none => "-"
      | some number => toString number)

namespace Trace

/-- Reading a formula from its text. -/
def parse (text : String) : List Entry :=
  [.debug ("Parsing formula: " ++ text),
    match Formula.parse text with
    | .ok f => .debug ("Successfully parsed formula into " ++ f.kindName)
    | .error _ => .debug "ParseError encountered during formula parsing"]

/-- Reading a formula from a value that is no text: how the value is shown, and what it is. -/
def noText (shown kind : String) : List Entry :=
  [.debug ("Parsing formula: " ++ shown),
    .debug ("Unexpected parsing error: TypeError: '" ++ kind ++ "' object is not subscriptable")]

/-- The number of product terms of a normal form. -/
def productTerms (count : Nat) : List Entry :=
  [.debug ("DNF derivation found " ++ toString count ++ " product terms")]

/-- Deriving the normal form of a formula. -/
def normalForm (f : Formula) : List Entry :=
  match f.productTerms with
  | .error _ => []
  | .ok terms => productTerms terms.length

/-- Reading a text and deriving the normal form of the formula. -/
def parseAndNormalForm (text : String) : List Entry :=
  .debug ("Parsing and transforming formula to DNF: " ++ text) :: parse text ++
    match Formula.parse text with
    | .error _ => []
    | .ok f =>
      normalForm f ++
        match f.normalForm with
        | .error _ => []
        | .ok dnf => [.debug ("DNF derivation completed, result type: " ++ dnf.kindName)]

/-- A run on a table of some rows. -/
def consensus (rowCount : Nat) (r : Run) : List Entry :=
  .debug ("Starting consensus on " ++ toString rowCount ++ " seed cubes"
      ++ (if r.exhaustive then " (exhaustive)" else "")) :: r.events.map Event.entry ++
    match r.fault? with
    | some _ => []
    | none =>
      [.debug ("Consensus finished with " ++ toString r.table.size ++ " rows, "
        ++ toString r.table.activeRows.length ++ " uncancelled")]

/-- Forming the sum of some cubes. -/
def reconstruct (count : Nat) : List Entry :=
  [.debug ("Reconstructed formula from " ++ toString count ++ " cubes")]

/-- Minimizing a formula that is read. -/
def minimization (f : Formula) (outcome : Except MinimizeError Minimization) : List Entry :=
  .debug ("Variables in canonical order: " ++ Text.quotedList f.vars) ::
    match outcome with
    | .error _ => []
    | .ok m =>
      productTerms m.terms.length ++
        match m.run? with
        | none => [.debug "Formula is unsatisfiable, cover is empty"]
        | some run => consensus m.terms.length run ++ reconstruct m.cover.length

/-- Reading and minimizing a formula. -/
def minimize (s : Settings) (text : String) : List Entry :=
  parse text ++
    match Formula.parse text with
    | .error _ => []
    | .ok f => minimization f (Minimization.ofFormula s f)

end Trace

end CubeCover
