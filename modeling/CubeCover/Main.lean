import CubeCover.Cli.Command

/-! The program itself: the only part that touches real files. -/
namespace CubeCover.Cli

/-- The number of an error, which some calls give with a minus sign. -/
def errorNumber (code : UInt32) : Nat :=
  if code < 0x80000000 then code.toNat else (0 - code).toNat

/-- The fault of a number, if it is one that has a name here. -/
def FileFault.ofNumber (code : Nat) (reason : String) : FileFault :=
  ([FileFault.missing, .notDirectory, .isDirectory, .nameTooLong].find? (·.code? = some code)).getD
    (.other code reason)

/-- The fault that an error of the system stands for. -/
def FileFault.ofError : IO.Error → FileFault
  | .noFileOrDirectory _ _ _ => .missing
  | .inappropriateType _ code reason => .ofNumber (errorNumber code) reason
  | .permissionDenied _ code reason => .ofNumber (errorNumber code) reason
  | .invalidArgument _ code reason => .ofNumber (errorNumber code) reason
  | .otherError code reason => .ofNumber (errorNumber code) reason
  | e => .other 5 (toString e)

/-- Tries to open a file. -/
def attempt {α : Type} (path : Path) (act : IO α) : IO (Except FileFault α) := do
  if path.toText.toList.contains '\x00' then return .error .nul
  try return .ok (← act)
  catch e => return .error (.ofError e)

def readBytes (path : Path) : IO (Except FileFault (List UInt8)) :=
  attempt path do return (← IO.FS.readBinFile path.toText).toList

def writeBytes (path : Path) (content : List UInt8) : IO (Except FileFault Unit) :=
  attempt path (IO.FS.writeBinFile path.toText ⟨content.toArray⟩)

def usage : String :=
  "usage: cubecover [-h] [-f FILE] [--symbols ascii|latex|unicode] [--max-variables N]\n" ++
  "                 [--exhaustive] [--table] [--csv FILE] [--validate-only] [-v] [--debug]\n" ++
  "                 [formula]"

def runRequest (r : Request) : IO UInt32 := do
  let text? ← match r.source with
    | .formula text => pure (.ok (some text))
    | .file none => pure (.ok none)
    | .file (some path) => (fun bytes => (formulaIn path bytes).map some) <$> readBytes path
  let plan := r.plan text?
  let write ← match plan.output? with
    | some o => writeBytes o.path o.content
    | none => pure (.ok ())
  let ending := plan.finish write
  IO.print (Entry.render r.threshold ending.entries)
  return ending.code.toUInt32

/-- Runs the program with some arguments, and yields its exit code. -/
def runProgram (arguments : List String) : IO UInt32 := do
  match Request.ofArguments arguments with
  | .error .help =>
    IO.println usage
    return 0
  | .error .misuse =>
    IO.eprintln usage
    return 2
  | .ok r => runRequest r

end CubeCover.Cli

def main (arguments : List String) : IO UInt32 := CubeCover.Cli.runProgram arguments
