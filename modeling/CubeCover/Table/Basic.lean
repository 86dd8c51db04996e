import CubeCover.Cube.Text

/-! Consensus tables: numbered rows of cubes. A row that another row covers is cancelled and stays in
the table; the rows that are not cancelled are active. -/
namespace CubeCover

structure Row where
  number : Int
  cube : Cube
  /-- The numbers of the two rows whose consensus the cube is; a seed has none. -/
  formedBy : List Int
  /-- The number of a row that covers this one. -/
  cancelledBy : Option Int
  deriving DecidableEq, Repr

namespace Row

instance : Inhabited Row := ⟨⟨0, default, [], none⟩⟩

def isActive (row : Row) : Bool := row.cancelledBy.isNone

def isSeed (row : Row) : Bool := row.formedBy.isEmpty

def cancel (row : Row) (number : Int) : Row := { row with cancelledBy := some number }

/-- Whether the row covers a cube of its length. -/
def covers (row : Row) (cube : Cube) : Except ShapeMismatch Bool :=
  row.cube.matched cube (row.cube.covers cube)

/-- The first active row that covers a cube. The active rows before it have to be of the cube's
length. -/
def firstCovering (cube : Cube) : List Row → Except ShapeMismatch (Option Row)
  | [] => .ok none
  | row :: rest =>
    if row.isActive then
      match row.covers cube with
      | .error e => .error e
      | .ok true => .ok (some row)
      | .ok false => firstCovering cube rest
    else firstCovering cube rest

end Row

/-- The rows in the order of their numbers, which count from one. -/
structure Table where
  rows : Array Row
  deriving DecidableEq, Repr

/-- Why a table cannot be started. -/
inductive SeedError
  | none
  | unequal
  deriving DecidableEq, Repr

def SeedError.message : SeedError → String
  | none => "Consensus needs at least one cube"
  | unequal => ShapeMismatch.seeds.message

/-- The answer to a question for a row that the table does not have. -/
def Table.noRowMessage : String := "list index out of range"

namespace Table

def empty : Table := ⟨#[]⟩

instance : Inhabited Table := ⟨empty⟩

def size (t : Table) : Nat := t.rows.size

/-- The number of the row that comes next. -/
def nextNumber (t : Table) : Int := Int.ofNat (t.size + 1)

def append (t : Table) (cube : Cube) (formedBy : List Int) (cancelledBy : Option Int) : Table :=
  ⟨t.rows.push ⟨t.nextNumber, cube, formedBy, cancelledBy⟩⟩

/-- The table of some cubes of one length. -/
def ofSeeds : List Cube → Except SeedError Table
  | [] => .error .none
  | first :: rest =>
    if rest.all (·.length = first.length) then
      .ok ((first :: rest).foldl (fun t cube => t.append cube [] none) empty)
    else .error .unequal

/-- The place that an index means: a negative one counts from the end. -/
def place? (t : Table) (index : Int) : Option Nat :=
  let shifted := if index < 0 then index + t.size else index
  if 0 ≤ shifted ∧ shifted < t.size then some shifted.toNat else none

/-- The row at an index; a negative index counts from the end. -/
def get? (t : Table) (index : Int) : Option Row := (t.place? index).bind (t.rows[·]?)

/-- The row of a number. Since the rows count from one, this is the row at the index before. -/
def row? (t : Table) (number : Int) : Option Row := t.get? (number - 1)

/-- Sets by which row the row of a number is cancelled, if any. -/
def setCancelled? (t : Table) (number : Int) (cancelledBy : Option Int) : Option Table :=
  (t.place? (number - 1)).map fun i =>
    ⟨t.rows.modify i fun row => { row with cancelledBy := cancelledBy }⟩

def firstCovering (t : Table) (cube : Cube) : Except ShapeMismatch (Option Row) :=
  Row.firstCovering cube t.rows.toList

def activeRows (t : Table) : List Row := t.rows.toList.filter Row.isActive

/-- The cubes of the active rows. -/
def survivors (t : Table) : List Cube := t.activeRows.map Row.cube

def isActiveAt (t : Table) (i : Nat) : Bool := t.rows[i]?.any Row.isActive

end Table

end CubeCover
