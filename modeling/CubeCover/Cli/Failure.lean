import CubeCover.Cli.Disk
import CubeCover.Minimize
import CubeCover.Text.Utf8
import CubeCover.Trace

/-! Why a command fails, what is told of it, and the exit code. -/
namespace CubeCover.Cli

/-- Why a command fails. -/
inductive Failure
  | formulaMissing (path : Path)
  | formulaFault (path : Path) (fault : FileFault)
  | formulaText (e : Text.Utf8Error)
  | formulaBlank
  /-- There is a switch for the file of the formula, but no path. -/
  | formulaWithheld
  /-- There is a switch for the limit on the variables, but no limit. -/
  | limitWithheld
  /-- There is a switch for the symbols, but no name of them. -/
  | symbolsWithheld
  | settings (e : SettingsError)
  | minimize (e : MinimizeError)
  | output (path : Path) (fault : FileFault)
  deriving DecidableEq, Repr

namespace Failure

/-- Failures by what they are due to. -/
inductive Cause
  | formula
  | input
  | size
  | unexpected
  deriving DecidableEq, Repr

def Cause.code : Cause → Nat
  | formula => 2
  | input => 3
  | size => 4
  | unexpected => 5

def Cause.heading : Cause → String
  | formula => "Formula parsing error: "
  | input => "Input error: "
  | size => "Formula too large: "
  | unexpected => "Unexpected error: "

def cause : Failure → Cause
  | formulaMissing _ => .input
  | formulaFault _ _ => .input
  | formulaText _ => .input
  | formulaBlank => .input
  | formulaWithheld => .formula
  | limitWithheld => .unexpected
  | symbolsWithheld => .unexpected
  | settings _ => .input
  | minimize (.parse _) => .formula
  | minimize (.tooManyVariables _ _) => .size
  | minimize (.unbound _) => .unexpected
  | minimize _ => .input
  | output _ .missing => .input
  | output _ .nul => .input
  | output _ _ => .unexpected

def message : Failure → String
  | formulaMissing path => "Formula file not found: " ++ path.toText
  | formulaFault _ .nul => FileFault.nul.reason
  | formulaFault path fault => "Error reading formula file: " ++ fault.message path
  | formulaText e => e.message
  | formulaBlank => "Formula file is empty"
  | formulaWithheld => "'NoneType' object is not subscriptable"
  | limitWithheld => "'<' not supported between instances of 'list' and 'int'"
  | symbolsWithheld => "unhashable type: 'list'"
  | settings e => e.message
  | minimize e => e.message
  | output path fault => fault.message path

def entry (f : Failure) : Entry := .error (f.cause.heading ++ f.message)

end Failure

end CubeCover.Cli
