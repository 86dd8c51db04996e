import CubeCover.Cli.Arguments
import CubeCover.Cli.Failure
import CubeCover.Table.Csv

/-! The command line program. It reads the formula, minimizes it, reports the result, and writes the
consensus table. The exit code says what went wrong first. -/
namespace CubeCover.Cli

/-- A file to write at the end. -/
structure Output where
  path : Path
  table : Table

def Output.content (o : Output) : List UInt8 := o.table.toCsv.toUTF8.data.toList

/-- How far a command gets before it writes. -/
structure Plan where
  entries : List Entry
  outcome : Except Failure (Option Output)

/-- The formula in a file that is read with this outcome, without the blanks at its ends. -/
def formulaIn (path : Path) : Except FileFault (List UInt8) → Except Failure String
  | .error .missing => .error (.formulaMissing path)
  | .error fault => .error (.formulaFault path fault)
  | .ok bytes =>
    match Text.decodeUtf8 bytes with
    | .error e => .error (.formulaText e)
    | .ok cs =>
      let formula := Text.trimBlanks (Text.foldLineEnds cs)
      if formula.isEmpty then .error .formulaBlank else .ok (String.ofList formula)

namespace Request

/-- The settings of the minimization; the limit is checked before the symbols. -/
def settings (r : Request) : Except Failure Settings :=
  match r.options.limit?.map Settings.limit with
  | none => .error .limitWithheld
  | some (.error e) => .error (.settings e)
  | some (.ok limit) =>
    match r.options.script? with
    | none => .error .symbolsWithheld
    | some script => .ok ⟨limit, script, r.options.exhaustive, Settings.usual.flatten⟩

/-- The least severity that is shown. -/
def threshold (r : Request) : Severity := Severity.threshold true r.options.debug

/-- The report on a minimization. -/
def report (r : Request) (m : Minimization) : List Entry :=
  let names := ", ".intercalate m.vars
  Entry.reportHead m.formulaText (some (if names = "" then "(none)" else names))
    ++ (if m.isUnsatisfiable then [.info "❌ Formula is unsatisfiable, the cover is empty"]
      else if m.dnfDiffers then [.info ("🧮 DNF: " ++ m.dnfText)]
      else [])
    ++ (match m.table? with
      | some table =>
        if r.options.table || r.options.verbose then
          [.info "\n📊 Consensus table:", .info (table.format Layout.titles)]
        else []
      | none => [])
    ++ [.coverFound m.minimizedText m.cover.length]

/-- The table to write, and what is told before. -/
def output (r : Request) (m : Minimization) : List Entry × Option Output :=
  match r.options.csv? with
  | none => ([], none)
  | some path =>
    match m.table? with
    | some table => ([], some ⟨path, table⟩)
    | none =>
      ([.warning "⚠️  Formula is unsatisfiable, writing an empty table"], some ⟨path, .empty⟩)

/-- Minimizes a formula and reports on it. -/
def work (r : Request) (s : Settings) (f : Formula) : Plan :=
  let outcome := Minimization.ofFormula s f
  let trace := Trace.minimization f outcome
  match outcome with
  | .error e => ⟨trace, .error (.minimize e)⟩
  | .ok m =>
    let (entries, output?) := r.output m
    ⟨trace ++ r.report m ++ entries, .ok output?⟩

/-- Parses the formula, and minimizes it unless only its syntax is to be checked. -/
def check (r : Request) (s : Settings) (text : String) : Plan :=
  match Formula.parse text with
  | .error e => ⟨Trace.parse text, .error (.minimize (.parse e))⟩
  | .ok f =>
    if r.options.validateOnly then
      ⟨Trace.parse text ++ [.info "✅ Formula syntax is well-formed"], .ok none⟩
    else
      let plan := r.work s f
      ⟨Trace.parse text ++ plan.entries, plan.outcome⟩

/-- The command before it writes, given the text of the formula, if there is one. -/
def plan (r : Request) (text? : Except Failure (Option String)) : Plan :=
  match text? with
  | .error failure => ⟨[], .error failure⟩
  | .ok text? =>
    match r.settings, text? with
    | .error failure, _ => ⟨[], .error failure⟩
    | .ok _, none => ⟨Trace.noText "None" "NoneType", .error .formulaWithheld⟩
    | .ok s, some text => r.check s text

end Request

/-- How a command ends: its exit code and all that it told. -/
structure Ending where
  code : Nat
  entries : List Entry
  deriving DecidableEq, Repr

namespace Plan

/-- The file to write, if the command gets there. -/
def output? (p : Plan) : Option Output :=
  match p.outcome with
  | .ok output? => output?
  | .error _ => none

def failed (p : Plan) (failure : Failure) : Ending :=
  ⟨failure.cause.code, p.entries ++ [failure.entry]⟩

/-- What is told of a file that is written. -/
def written (o : Output) : List Entry :=
  let count := toString o.table.size
  [.debug ("Wrote " ++ count ++ " consensus rows to " ++ o.path.toText),
    .info ("💾 Wrote " ++ count ++ " rows to " ++ o.path.toText)]

/-- The end of the command, given the outcome of writing the file. -/
def finish (p : Plan) (write : Except FileFault Unit) : Ending :=
  match p.outcome with
  | .error failure => p.failed failure
  | .ok none => ⟨0, p.entries⟩
  | .ok (some o) =>
    match write with
    | .error fault => p.failed (.output o.path fault)
    | .ok _ => ⟨0, p.entries ++ written o⟩

end Plan

/-- The text of the formula, if there is one, with the files of a disk. -/
def Source.text (d : Disk) (medium : Medium) : Source → Except Failure (Option String)
  | .formula text => .ok (some text)
  | .file none => .ok none
  | .file (some path) => (formulaIn path (d.read medium path)).map some

/-- Runs a request on a disk. -/
def Request.run (r : Request) (medium : Medium) (d : Disk) : Ending × Disk :=
  let plan := r.plan (r.source.text d medium)
  match plan.output? with
  | none => (plan.finish (.ok ()), d)
  | some o =>
    let (written, d') := d.write medium o.path o.content
    (plan.finish written, d')

/-- How a program run ends. -/
inductive Exit
  /-- The arguments are not read to their end. -/
  | stopped (stop : Stop)
  /-- The exit code and the lines that are shown. -/
  | ended (code : Nat) (shown : String)
  deriving DecidableEq, Repr

/-- Runs the program with some arguments on a disk whose files behave in some way. -/
def runOn (medium : Medium) (arguments : List String) (d : Disk) : Exit × Disk :=
  match Request.ofArguments arguments with
  | .error stop => (.stopped stop, d)
  | .ok r =>
    let (ending, d') := r.run medium d
    (.ended ending.code (Entry.render r.threshold ending.entries), d')

/-- Runs the program with some arguments on a disk. -/
def run (arguments : List String) (d : Disk) : Exit × Disk := runOn .sound arguments d

end CubeCover.Cli
