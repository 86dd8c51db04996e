import CubeCover.Text.Numeral

/-! The switches of the command line. A switch is given by its long name, a beginning of it that no
other switch has, or its letter; letters of switches without a value may be joined. -/
namespace CubeCover.Cli

inductive Switch
  | help
  | file
  | symbols
  | maxVariables
  | exhaustive
  | table
  | csv
  | validateOnly
  | verbose
  | debug
  deriving DecidableEq, Repr

namespace Switch

def all : List Switch :=
  [help, file, symbols, maxVariables, exhaustive, table, csv, validateOnly, verbose, debug]

def longName : Switch → String
  | help => "--help"
  | file => "--file"
  | symbols => "--symbols"
  | maxVariables => "--max-variables"
  | exhaustive => "--exhaustive"
  | table => "--table"
  | csv => "--csv"
  | validateOnly => "--validate-only"
  | verbose => "--verbose"
  | debug => "--debug"

def letter? : Switch → Option Char
  | help => some 'h'
  | file => some 'f'
  | verbose => some 'v'
  | _ => none

def takesValue : Switch → Bool
  | file => true
  | symbols => true
  | maxVariables => true
  | csv => true
  | _ => false

def ofLetter? (c : Char) : Option Switch := all.find? (·.letter? = some c)

/-- The name that the letter of a switch makes. -/
def shortName? (s : Switch) : Option String := s.letter?.map fun c => String.ofList ['-', c]

/-- The switch that has exactly this name. -/
def ofName? (name : String) : Option Switch :=
  all.find? fun s => s.longName = name || s.shortName? = some name

/-- The switches whose long names begin in this way. -/
def withBeginning (cs : List Char) : List Switch := all.filter (cs.isPrefixOf ·.longName.toList)

end Switch

/-- The arguments end the program before any work. -/
inductive Stop
  | help
  | misuse
  deriving DecidableEq, Repr

def Stop.code : Stop → Nat
  | help => 0
  | misuse => 2

/-- The switches that one argument gives. -/
structure Cluster where
  switches : List (Switch × Option String)
  /-- A last switch, whose value is the next argument. -/
  awaiting? : Option Switch
  deriving DecidableEq, Repr

namespace Cluster

/-- A switch with nothing attached to it. -/
def alone (s : Switch) : Cluster :=
  if s.takesValue then ⟨[], some s⟩ else ⟨[(s, none)], none⟩

def add (s : Switch) (c : Cluster) : Cluster := { c with switches := (s, none) :: c.switches }

/-- A switch given by its long name, with a value attached. -/
def ofLong (s : Switch) (value : List Char) : Option Cluster :=
  if s.takesValue then some ⟨[(s, some (String.ofList value))], none⟩ else none

/-- A switch given by its letter, with a text attached: its value, or the letters of more switches,
the last of which may take a value and have the end of the text attached. -/
def ofShort (s : Switch) : List Char → Option Cluster
  | [] => ofLong s []
  | c :: rest =>
    if s.takesValue then ofLong s (c :: rest)
    else
      match Switch.ofLetter? c with
      | none => none
      | some next =>
        if rest.isEmpty then some (add s (alone next)) else (ofShort next rest).map (add s)

end Cluster

/-- An argument before two dashes alone. -/
inductive Item
  | operand (text : String)
  /-- The switches that the argument gives, unless they cannot be joined in this way. -/
  | switches (cluster? : Option Cluster)
  /-- It looks like a switch and is none. -/
  | unknown
  deriving DecidableEq, Repr

/-- Digits of any script, at least one. -/
def isDigits (cs : List Char) : Bool :=
  !cs.isEmpty && cs.all fun c => (Text.digitValue? c).isSome

/-- What follows a minus sign makes a number, perhaps with a line feed at its end. -/
def isNegativeNumber (cs : List Char) : Bool :=
  let body := if cs.getLast? = some '\n' then cs.dropLast else cs
  isDigits body ||
    match body.dropWhile (· != '.') with
    | '.' :: fraction =>
      isDigits fraction && body.all fun c => c == '.' || (Text.digitValue? c).isSome
    | _ => false

/-- What the characters of an argument mean that names no switch in full. -/
def guess (text : String) : List Char → Except Stop Item
  | '-' :: '-' :: rest =>
    let name := rest.takeWhile (· != '=')
    match Switch.withBeginning ('-' :: '-' :: name), rest.dropWhile (· != '=') with
    | [s], [] => .ok (.switches (some (.alone s)))
    | [s], _ :: value => .ok (.switches (Cluster.ofLong s value))
    | [], _ =>
      .ok (if text.toList.contains ' ' then .operand text else .unknown)
    | _, _ => .error .misuse
  | '-' :: c :: rest =>
    match Switch.ofLetter? c with
    | some s => .ok (.switches (Cluster.ofShort s rest))
    | none =>
      .ok (if isNegativeNumber (c :: rest) || text.toList.contains ' ' then .operand text
        else .unknown)
  | _ => .ok (.operand text)

/-- A switch named in full, with a value attached by an equals sign. -/
def attached? (cs : List Char) : Option Item :=
  match cs.dropWhile (· != '=') with
  | [] => none
  | _ :: value =>
    let name := String.ofList (cs.takeWhile (· != '='))
    match Switch.ofName? name with
    | none => none
    | some s =>
      if s.longName = name then some (.switches (Cluster.ofLong s value))
      else some (.switches (Cluster.ofShort s value))

/-- What an argument before two dashes alone means. -/
def classify (text : String) : Except Stop Item :=
  match text.toList with
  | '-' :: rest =>
    match Switch.ofName? text with
    | some s => .ok (.switches (some (.alone s)))
    | none =>
      match attached? ('-' :: rest) with
      | some item => .ok item
      | none => guess text ('-' :: rest)
  | _ => .ok (.operand text)

end CubeCover.Cli
