import CubeCover.Cli.Path
import CubeCover.Cli.Switch
import CubeCover.Settings

/-! The arguments of the command line. Besides switches there may be one argument, the formula. After
two dashes alone nothing is a switch. A switch whose value is attached to it and is two dashes alone
is there without a value. -/
namespace CubeCover.Cli

/-- Where the formula comes from. -/
inductive Source
  | formula (text : String)
  /-- A file, unless its path is withheld. -/
  | file (path? : Option Path)
  deriving DecidableEq, Repr

/-- What the switches ask for. A switch without a value leaves the symbols or the limit open, and
takes back the file to write. -/
structure Options where
  script? : Option Script
  /-- The greatest number of variables. -/
  limit? : Option Int
  csv? : Option Path
  exhaustive : Bool
  table : Bool
  validateOnly : Bool
  verbose : Bool
  debug : Bool
  deriving DecidableEq, Repr

def Options.usual : Options :=
  ⟨some Settings.usual.script, some Settings.usualLimit, none, false, false, false, false, false⟩

/-- What the arguments ask for. -/
structure Request where
  source : Source
  options : Options
  deriving DecidableEq, Repr

/-- What the arguments read so far ask for. -/
structure Draft where
  source? : Option Source
  options : Options
  deriving DecidableEq, Repr

namespace Draft

def blank : Draft := ⟨none, .usual⟩

/-- Takes the formula from an argument; a file must not be given as well. -/
def setFormula (d : Draft) (text : String) : Except Stop Draft :=
  match d.source? with
  | none => .ok { d with source? := some (.formula text) }
  | some _ => .error .misuse

/-- Takes the formula from a file; of two files the last one counts. -/
def setFile (d : Draft) (path? : Option Path) : Except Stop Draft :=
  match d.source? with
  | some (.formula _) => .error .misuse
  | _ => .ok { d with source? := some (.file path?) }

/-- Sets a switch that takes a value. -/
def setValue (d : Draft) (s : Switch) (text : String) : Except Stop Draft :=
  match s with
  | .file => d.setFile (some (.ofText text))
  | .symbols =>
    match Script.ofName text with
    | .ok script => .ok { d with options := { d.options with script? := some script } }
    | .error _ => .error .misuse
  | .maxVariables =>
    match Text.integer? text with
    | some limit => .ok { d with options := { d.options with limit? := some limit } }
    | none => .error .misuse
  | .csv => .ok { d with options := { d.options with csv? := some (.ofText text) } }
  | _ => .ok d

/-- Sets a switch that takes a value and has none. -/
def withhold (d : Draft) : Switch → Except Stop Draft
  | .file => d.setFile none
  | .symbols => .ok { d with options := { d.options with script? := none } }
  | .maxVariables => .ok { d with options := { d.options with limit? := none } }
  | .csv => .ok { d with options := { d.options with csv? := none } }
  | _ => .ok d

/-- Sets a switch that takes no value. -/
def setFlag (d : Draft) : Switch → Except Stop Draft
  | .help => .error .help
  | .exhaustive => .ok { d with options := { d.options with exhaustive := true } }
  | .table => .ok { d with options := { d.options with table := true } }
  | .validateOnly => .ok { d with options := { d.options with validateOnly := true } }
  | .verbose => .ok { d with options := { d.options with verbose := true } }
  | .debug => .ok { d with options := { d.options with debug := true } }
  | _ => .ok d

def set (d : Draft) (s : Switch) : Option String → Except Stop Draft
  | some text => if text = "--" then d.withhold s else d.setValue s text
  | none => d.setFlag s

/-- Sets switches in order. -/
def setAll (d : Draft) : List (Switch × Option String) → Except Stop Draft
  | [] => .ok d
  | (s, value?) :: rest =>
    match d.set s value? with
    | .error stop => .error stop
    | .ok d => d.setAll rest

end Draft

/-- Arguments on their way to a request. -/
structure Reading where
  draft : Draft
  /-- The place of the formula is taken. -/
  filled : Bool
  /-- The argument before took it. -/
  adjacent : Bool
  /-- Some argument has no meaning. -/
  stray : Bool

namespace Reading

def start : Reading := ⟨.blank, false, false, false⟩

/-- An argument that is no switch is the formula, if there is none yet. -/
def operand (r : Reading) (text : String) : Except Stop Reading :=
  if r.filled then .ok { r with adjacent := false, stray := true }
  else
    match r.draft.setFormula text with
    | .error stop => .error stop
    | .ok draft => .ok ⟨draft, true, true, r.stray⟩

/-- Sets the switches of an argument, and the last of them to a value if it awaits one. -/
def cluster (r : Reading) (c : Cluster) (value? : Option String) : Except Stop Reading :=
  match r.draft.setAll (c.switches ++ c.awaiting?.toList.map (·, value?)) with
  | .error stop => .error stop
  | .ok draft => .ok ⟨draft, r.filled, false, r.stray⟩

/-- Reads the arguments before two dashes alone. -/
def items (r : Reading) : List Item → Except Stop Reading
  | [] => .ok r
  | .operand text :: rest =>
    match r.operand text with
    | .error stop => .error stop
    | .ok r => r.items rest
  | .unknown :: rest => items { r with adjacent := false, stray := true } rest
  | .switches none :: _ => .error .misuse
  | .switches (some c) :: rest =>
    match c.awaiting?, rest with
    | none, rest =>
      match r.cluster c none with
      | .error stop => .error stop
      | .ok r => r.items rest
    | some _, .operand text :: rest =>
      match r.cluster c (some text) with
      | .error stop => .error stop
      | .ok r => r.items rest
    | some _, _ => .error .misuse

/-- Reads arguments that cannot be switches. -/
def operands (r : Reading) : List String → Except Stop Reading
  | [] => .ok r
  | text :: rest =>
    match r.operand text with
    | .error stop => .error stop
    | .ok r => r.operands rest

/-- Reads two dashes alone and what follows them. They have no meaning once the formula is there,
unless they follow it at once. -/
def separated (r : Reading) : List String → Except Stop Reading
  | [] => .ok r
  | _ :: texts => operands { r with stray := r.stray || (r.filled && !r.adjacent) } texts

/-- A request needs a formula or a file, and every argument needs a meaning. -/
def finish (r : Reading) : Except Stop Request :=
  match r.draft.source? with
  | some source => if r.stray then .error .misuse else .ok ⟨source, r.draft.options⟩
  | none => .error .misuse

end Reading

/-- The meanings of some arguments. -/
def classifyAll : List String → Except Stop (List Item)
  | [] => .ok []
  | text :: rest =>
    match classify text with
    | .error stop => .error stop
    | .ok item =>
      match classifyAll rest with
      | .error stop => .error stop
      | .ok items => .ok (item :: items)

/-- Reads the arguments. -/
def Request.ofArguments (arguments : List String) : Except Stop Request :=
  match classifyAll (arguments.takeWhile (· != "--")) with
  | .error stop => .error stop
  | .ok items =>
    match Reading.start.items items with
    | .error stop => .error stop
    | .ok r =>
      match r.separated (arguments.dropWhile (· != "--")) with
      | .error stop => .error stop
      | .ok r => r.finish

end CubeCover.Cli
