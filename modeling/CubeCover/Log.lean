/-! Log entries, their severities, and what of them is shown. -/
namespace CubeCover

inductive Severity
  | debug
  | info
  | warning
  | error
  deriving DecidableEq, Repr

namespace Severity

def rank : Severity → Nat
  | debug => 10
  | info => 20
  | warning => 30
  | error => 40

def name : Severity → String
  | debug => "DEBUG"
  | info => "INFO"
  | warning => "WARNING"
  | error => "ERROR"

def ofName? (name : String) : Option Severity :=
  [debug, info, warning, error].find? (·.name = name)

/-- The least severity shown on request: everything, or all but details, or warnings only. -/
def threshold (verbose details : Bool) : Severity :=
  if details then debug else if verbose then info else warning

end Severity

structure Entry where
  severity : Severity
  text : String
  deriving DecidableEq, Repr

namespace Entry

def debug (text : String) : Entry := ⟨.debug, text⟩

def info (text : String) : Entry := ⟨.info, text⟩

def warning (text : String) : Entry := ⟨.warning, text⟩

def error (text : String) : Entry := ⟨.error, text⟩

/-- Only details are marked as what they are. -/
def line (e : Entry) : String :=
  (if e.severity = .debug then "[DEBUG] " else "") ++ e.text ++ "\n"

/-- The lines of the entries that are at least as severe as a threshold. -/
def render (threshold : Severity) (entries : List Entry) : String :=
  String.join ((entries.filter fun e => threshold.rank ≤ e.severity.rank).map line)

end Entry

end CubeCover
