import CubeCover.Bindings
import CubeCover.Text.Quoted

/-! Propositional formulas: their parts, their variables and their truth value. -/
namespace CubeCover

/-- The connectives of two operands. -/
inductive Connective
  | and
  | or
  deriving DecidableEq, Repr

/-- The truth value of a left operand that settles the value of the whole. -/
def Connective.settling : Connective → Bool
  | .and => false
  | .or => true

/-- A formula. The atoms of the names `true` and `false` are the constants, every other name but
the empty one is a variable. -/
inductive Formula
  | atom (name : String)
  | not (operand : Formula)
  | binary (op : Connective) (left right : Formula)
  deriving DecidableEq, Repr

/-- A name without a value. -/
structure Unbound where
  name : String
  deriving DecidableEq, Repr

def Unbound.message (e : Unbound) : String := Text.quoted e.name

namespace Formula

instance : Inhabited Formula := ⟨.atom ""⟩

def verum : Formula := .atom "true"

def falsum : Formula := .atom "false"

/-- The atom without a name, which stands for the left operand that a negation lacks. -/
def placeholder : Formula := .atom ""

def isConstantName (name : String) : Bool := name == "true" || name == "false"

def isVariableName (name : String) : Bool := name != "" && !isConstantName name

def left? : Formula → Option Formula
  | .atom _ => none
  | .not _ => some placeholder
  | .binary _ left _ => some left

def right? : Formula → Option Formula
  | .atom _ => none
  | .not operand => some operand
  | .binary _ _ right => some right

/-- A formula is atomic if it has no operands. -/
def isAtomic (f : Formula) : Bool := f.left?.isNone && f.right?.isNone

def isVariable : Formula → Bool
  | .atom name => isVariableName name
  | _ => false

/-- Whether an atom is a constant; the question makes no sense of another formula. -/
def isConstant? : Formula → Option Bool
  | .atom name => some (isConstantName name)
  | _ => none

/-- What a formula is at its root. -/
def kindName : Formula → String
  | .atom _ => "Atom"
  | .not _ => "Not"
  | .binary .and _ _ => "And"
  | .binary .or _ _ => "Or"

/-- The truth value under an assignment. The right operand is read only if the left one leaves the
value open. -/
def evaluate (a : Assignment) : Formula → Except Unbound Bool
  | .atom name =>
    if name = "true" then .ok true
    else if name = "false" then .ok false
    else
      match a.get? name with
      | some value => .ok value
      | none => .error ⟨name⟩
  | .not operand =>
    match operand.evaluate a with
    | .ok value => .ok !value
    | .error e => .error e
  | .binary op left right =>
    match left.evaluate a with
    | .ok value => if value = op.settling then .ok value else right.evaluate a
    | .error e => .error e

/-- The operands from left to right, the placeholder of a negation included. -/
def operands : Formula → List Formula
  | .atom _ => []
  | .not operand => [placeholder, operand]
  | .binary _ left right => [left, right]

/-- How many formulas a walk over a formula meets, placeholders included. -/
def size : Formula → Nat
  | .atom _ => 1
  | .not operand => operand.size + 2
  | .binary _ left right => left.size + right.size + 1

/-- The size of all formulas of a stack together. -/
def stackSize : List Formula → Nat
  | [] => 0
  | f :: stack => f.size + stackSize stack

theorem stackSize_append (fs gs : List Formula) :
    stackSize (fs ++ gs) = stackSize fs + stackSize gs := by
  induction fs with
  | nil => exact (Nat.zero_add _).symm
  | cons f fs ih =>
    simp only [List.cons_append, stackSize, ih]
    omega

theorem stackSize_operands (f : Formula) : stackSize f.operands + 1 = f.size := by
  cases f with
  | atom name => rfl
  | not operand =>
    simp only [operands, placeholder, size, stackSize]
    omega
  | binary op left right =>
    simp only [operands, size, stackSize]
    omega

/-- A name joins the variables found before it unless it is one of them or no variable. -/
def note (found : List String) (name : String) : List String :=
  if isVariableName name && !found.contains name then found ++ [name] else found

/-- Walks over a stack of formulas, the first one first, and collects the variables. -/
def collect (found : List String) : (stack : List Formula) → List String
  | [] => found
  | .atom name :: stack => collect (note found name) stack
  | f :: stack => collect found (f.operands ++ stack)
termination_by stack => stackSize stack
decreasing_by
  · simp only [stackSize, size]
    omega
  · have h := stackSize_operands f
    rw [stackSize_append, stackSize]
    omega

/-- The variables in the order in which they first occur, read from left to right. -/
def vars (f : Formula) : List String := collect [] [f]

end Formula

end CubeCover
