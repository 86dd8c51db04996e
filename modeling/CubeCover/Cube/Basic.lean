import CubeCover.Bindings

/-! Cubes: product terms as lists of digits, one for each variable. A cube stands for the points
that agree with it wherever it has no free digit. -/
namespace CubeCover

/-- A variable is negated, plain, or absent from the product term. -/
inductive Digit
  | zero
  | one
  | free
  deriving DecidableEq, Repr

namespace Digit

def ofBool : Bool → Digit
  | false => zero
  | true => one

/-- The digit of a truth value, free if there is none. -/
def ofBool? : Option Bool → Digit
  | some value => ofBool value
  | none => free

/-- The digit of a number: only 0 and 1 are digits, all else is free. -/
def ofInt? : Option Int → Digit
  | some 0 => zero
  | some 1 => one
  | _ => free

/-- The number of a digit that is not free. -/
def toNat? : Digit → Option Nat
  | zero => some 0
  | one => some 1
  | free => none

/-- The truth value of a digit that is not free. -/
def toBool? : Digit → Option Bool
  | zero => some false
  | one => some true
  | free => none

/-- A free digit covers every digit, any other only itself. -/
def covers (a b : Digit) : Bool := a == free || a == b

/-- Two digits conflict if neither is free and they differ. -/
def conflicts (a b : Digit) : Bool := a != free && b != free && a != b

/-- The digits that the points of a digit have. -/
def points : Digit → List Digit
  | free => [zero, one]
  | digit => [digit]

/-- The digit that two digits have in common, if they do not conflict. -/
def meet? (a b : Digit) : Option Digit :=
  if a = free then some b
  else if b = free || a = b then some a
  else none

/-- A free digit yields the other one, equal digits stay, and a conflict is freed. -/
def add (a b : Digit) : Digit :=
  if a = free then b
  else if b = free || a = b then a
  else free

end Digit

structure Cube where
  digits : List Digit
  deriving DecidableEq, Repr

/-- Two things were combined that do not have the same length. -/
inductive ShapeMismatch
  /-- Two cubes. -/
  | cubes (a b : Cube)
  /-- A cube and some names for its digits. -/
  | names (cube : Cube) (count : Nat)
  /-- The first rows of a table. -/
  | seeds
  /-- The terms of a sum. -/
  | terms
  deriving DecidableEq, Repr

namespace Cube

instance : Inhabited Cube := ⟨⟨[]⟩⟩

def length (a : Cube) : Nat := a.digits.length

def ofInts (values : List (Option Int)) : Cube := ⟨values.map Digit.ofInt?⟩

/-- The cube of an assignment that may leave names without a truth value. -/
def ofPartial (a : Bindings (Option Bool)) : Cube := ⟨a.values.map Digit.ofBool?⟩

/-- The cube of an assignment, in the order of its names. -/
def ofAssignment (a : Assignment) : Cube := ⟨a.values.map Digit.ofBool⟩

def freeCount (a : Cube) : Nat := a.digits.countP (· == .free)

/-- The cubes of the same length without a free digit that a cube covers, in the order of their
digits. -/
def points (a : Cube) : List Cube :=
  (a.digits.foldr
    (fun digit rest => digit.points.flatMap fun d => rest.map (d :: ·)) [[]]).map Cube.mk

/-- The first list covers the second digit by digit; lists of two lengths never do. -/
def coversDigits : List Digit → List Digit → Bool
  | [], [] => true
  | a :: as, b :: bs => a.covers b && coversDigits as bs
  | _, _ => false

/-- Every point of the second cube is a point of the first. -/
def covers (a b : Cube) : Bool := coversDigits a.digits b.digits

/-- At how many places the digits conflict. -/
def conflicts (a b : Cube) : Nat :=
  ((a.digits.zip b.digits).filter fun pair => pair.1.conflicts pair.2).length

/-- Some variable is plain in one cube and negated in the other. -/
def opposes (a b : Cube) : Bool := 0 < a.conflicts b

/-- At most one place conflicts. -/
def hasConsensus (a b : Cube) : Bool := a.conflicts b ≤ 1

/-- The digits in common, place by place. -/
def meetDigits : List Digit → List Digit → Option (List Digit)
  | a :: as, b :: bs =>
    match a.meet? b, meetDigits as bs with
    | some digit, some rest => some (digit :: rest)
    | _, _ => none
  | _, _ => some []

/-- The cube of the common points, if there are any. -/
def intersect (a b : Cube) : Option Cube := (meetDigits a.digits b.digits).map Cube.mk

/-- The sum, digit by digit. -/
def add (a b : Cube) : Cube := ⟨List.zipWith Digit.add a.digits b.digits⟩

/-- Conflicting variables are eliminated, and all other digits are those of the intersection. That
is the sum again; what it covers lies in the two cubes together if one place conflicts. -/
def consensus (a b : Cube) : Cube := a.add b

/-- What an operation on two cubes yields, if they have one length. -/
def matched {α : Type} (a b : Cube) (result : α) : Except ShapeMismatch α :=
  if a.length = b.length then .ok result else .error (.cubes a b)

/-- The truth values of the digits under the names of their variables; free digits are left out. -/
def toAssignment (a : Cube) (names : List String) : Except ShapeMismatch Assignment :=
  if names.length = a.length then
    .ok (Bindings.ofList
      ((names.zip a.digits).filterMap fun entry => entry.2.toBool?.map (entry.1, ·)))
  else .error (.names a names.length)

end Cube

end CubeCover
