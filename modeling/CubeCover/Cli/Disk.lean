import CubeCover.Cli.Path
import CubeCover.Text.Quoted

/-! Files in directories, as far as a program sees them that reads one file and writes another. A file
that is there may still be refused, and bytes that are written may not all arrive. -/
namespace CubeCover.Cli

/-- Why a file cannot be opened, read or written. -/
inductive FileFault
  /-- The path holds the character U+0000. -/
  | nul
  | missing
  | notDirectory
  | isDirectory
  | nameTooLong
  /-- Any other reason, with its number. -/
  | other (code : Nat) (reason : String)
  deriving DecidableEq, Repr

namespace FileFault

/-- The number of a fault that the system reports. -/
def code? : FileFault → Option Nat
  | nul => none
  | missing => some 2
  | notDirectory => some 20
  | isDirectory => some 21
  | nameTooLong => some 36
  | other code _ => some code

def reason : FileFault → String
  | nul => "embedded null byte"
  | missing => "No such file or directory"
  | notDirectory => "Not a directory"
  | isDirectory => "Is a directory"
  | nameTooLong => "File name too long"
  | other _ reason => reason

/-- What is told of a fault with the file of a path. -/
def message (fault : FileFault) (path : Path) : String :=
  match fault.code? with
  | none => fault.reason
  | some code =>
    "[Errno " ++ toString code ++ "] " ++ fault.reason ++ ": " ++ Text.quoted path.toText

end FileFault

inductive Node
  | directory
  | file (content : List UInt8)
  deriving DecidableEq, Repr

/-- The parts of the path from the root of the disk to a place. -/
abbrev Place := List String

/-- What becomes of bytes that are written to an open file. -/
inductive Writing
  | done
  /-- A fault, after which only some of the bytes are there. -/
  | broken (count : Nat) (fault : FileFault)
  deriving DecidableEq, Repr

/-- How the files at places behave when they are used. -/
structure Medium where
  /-- The fault of reading a file. -/
  readFault? : Place → Option FileFault
  /-- The fault of opening a file to write it. -/
  openFault? : Place → Option FileFault
  writing : Place → List UInt8 → Writing

/-- Nothing fails that is in its place. -/
def Medium.sound : Medium := ⟨fun _ => none, fun _ => none, fun _ _ => .done⟩

structure Disk where
  /-- Where paths without an anchor start. -/
  here : Place
  /-- What there is at which place; of two entries the first one counts. -/
  nodes : List (Place × Node)
  deriving DecidableEq, Repr

namespace Disk

/-- The greatest length of a part of a path, in bytes. -/
def partLimit : Nat := 255

/-- The greatest length of a path, in bytes. -/
def pathLimit : Nat := 4095

/-- What there is at a place. The root is always there. -/
def node? (d : Disk) (place : Place) : Option Node :=
  match place with
  | [] => some .directory
  | _ => d.nodes.lookup place

/-- The place that a part of a path leads to from a directory, whether or not anything is there. -/
def enter (d : Disk) (place : Place) (part : String) : Except FileFault Place :=
  match d.node? place with
  | none => .error .missing
  | some (.file _) => .error .notDirectory
  | some .directory =>
    if part = ".." then .ok place.dropLast
    else if partLimit < part.utf8ByteSize then .error .nameTooLong
    else .ok (place ++ [part])

/-- Follows the parts of a path, all but the last one through directories. -/
def follow (d : Disk) (place : Place) : List String → Except FileFault Place
  | [] => .ok place
  | part :: rest =>
    match d.enter place part with
    | .error fault => .error fault
    | .ok next => d.follow next rest

/-- The place of a path. -/
def place (d : Disk) (path : Path) : Except FileFault Place :=
  if path.toText.toList.contains '\x00' then .error .nul
  else if pathLimit < path.toText.utf8ByteSize then .error .nameTooLong
  else d.follow (if path.anchor = .here then d.here else []) path.parts

/-- The bytes of a file. -/
def read (d : Disk) (medium : Medium) (path : Path) : Except FileFault (List UInt8) :=
  match d.place path with
  | .error fault => .error fault
  | .ok place =>
    match d.node? place with
    | none => .error .missing
    | some .directory => .error .isDirectory
    | some (.file content) =>
      match medium.readFault? place with
      | some fault => .error fault
      | none => .ok content

/-- The place of a path, if a file can be opened there to write it. -/
def destination (d : Disk) (medium : Medium) (path : Path) : Except FileFault Place :=
  match d.place path with
  | .error fault => .error fault
  | .ok place =>
    if d.node? place = some .directory then .error .isDirectory
    else
      match medium.openFault? place with
      | some fault => .error fault
      | none => .ok place

/-- Sets what there is at a place. -/
def set (place : Place) (node : Node) : List (Place × Node) → List (Place × Node)
  | [] => [(place, node)]
  | entry :: rest =>
    if entry.1 = place then (place, node) :: rest else entry :: set place node rest

/-- Puts a file at a place, new or in place of the old one. -/
def put (d : Disk) (place : Place) (content : List UInt8) : Disk :=
  { d with nodes := set place (.file content) d.nodes }

/-- Writes a file. Opening it leaves nothing of an old one, so a fault that comes later leaves a file
with the bytes that were written before. -/
def write (d : Disk) (medium : Medium) (path : Path) (content : List UInt8) :
    Except FileFault Unit × Disk :=
  match d.destination medium path with
  | .error fault => (.error fault, d)
  | .ok place =>
    match medium.writing place content with
    | .done => (.ok (), d.put place content)
    | .broken count fault => (.error fault, d.put place (content.take count))

end Disk

end CubeCover.Cli
