import CubeCover.Formula.Symbols

/-! The settings of a minimization. -/
namespace CubeCover

structure Settings where
  /-- Formulas with more variables are refused. -/
  maxVariables : Nat
  script : Script
  /-- Whether the last row of the table takes its turn as well. -/
  exhaustive : Bool
  /-- Whether chains of one connective are printed without parentheses. -/
  flatten : Bool
  deriving DecidableEq, Repr

inductive SettingsError
  | negativeLimit
  | symbols (e : SymbolsError)
  deriving DecidableEq, Repr

def SettingsError.message : SettingsError → String
  | negativeLimit => "max_variables must not be negative"
  | symbols e => e.message

/-- New values for some of the settings. -/
structure Changes where
  maxVariables? : Option Int
  scriptName? : Option String
  exhaustive? : Option Bool
  flatten? : Option Bool
  deriving DecidableEq, Repr

namespace Settings

/-- The greatest number of variables, unless another one is asked for. -/
def usualLimit : Nat := 8

def usual : Settings := ⟨usualLimit, .ascii, false, true⟩

/-- The limit that a number sets. -/
def limit (n : Int) : Except SettingsError Nat :=
  if n < 0 then .error .negativeLimit else .ok n.toNat

/-- Changes some of the settings; the limit is checked before the name of the symbols. -/
def change (s : Settings) (c : Changes) : Except SettingsError Settings :=
  match limit (c.maxVariables?.getD s.maxVariables) with
  | .error e => .error e
  | .ok maxVariables =>
    match Script.ofName (c.scriptName?.getD s.script.name) with
    | .error e => .error (.symbols e)
    | .ok script =>
      .ok ⟨maxVariables, script, c.exhaustive?.getD s.exhaustive, c.flatten?.getD s.flatten⟩

end Settings

end CubeCover
