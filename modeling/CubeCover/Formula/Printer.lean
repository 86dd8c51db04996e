import CubeCover.Formula.Basic
import CubeCover.Formula.Symbols
import CubeCover.Text.Word

/-! Printing formulas. Parentheses stand only where the text would otherwise be read in another
way; a printer that flattens also leaves them out of chains of one connective. -/
namespace CubeCover

structure Printer where
  symbols : Symbols
  /-- Chains of one connective are written without parentheses, however they group. -/
  flatten : Bool
  deriving DecidableEq, Repr

/-- A disjunction binds weakest, then a conjunction, a negation and an atom. -/
def Formula.precedence : Formula → Nat
  | .binary .or _ _ => 1
  | .binary .and _ _ => 2
  | .not _ => 3
  | .atom _ => 4

/-- The connective at the root of a formula. -/
def Formula.connective? : Formula → Option Connective
  | .binary op _ _ => some op
  | _ => none

def Symbols.ofConnective (s : Symbols) : Connective → String
  | .and => s.conjunction
  | .or => s.disjunction

/-- What parts the symbol of the negation from its operand: a space after a letter or a digit. -/
def Symbols.negationGap (s : Symbols) : String :=
  if s.negation.toList.getLast?.any Text.isAlphanumeric then " " else ""

namespace Printer

def parenthesize (needed : Bool) (text : String) : String :=
  if needed then "(" ++ text ++ ")" else text

/-- A left operand is put in parentheses if it binds weaker, or if it is a chain of the same
connective, which would group to the right without them. -/
def wrapsLeft (p : Printer) (op : Connective) (left : Formula) : Bool :=
  left.precedence < (Formula.binary op left left).precedence
    || (left.connective? == some op && !p.flatten)

/-- A right operand is put in parentheses if it binds weaker. -/
def wrapsRight (op : Connective) (right : Formula) : Bool :=
  right.precedence < (Formula.binary op right right).precedence

/-- Two operands with the symbol between them; an empty symbol takes no room. -/
def join (symbol left right : String) : String :=
  if symbol = "" then left ++ " " ++ right else left ++ " " ++ symbol ++ " " ++ right

def render (p : Printer) : Formula → String
  | .atom name => name
  | .not operand =>
    let inner := p.render operand
    if p.symbols.negationWraps then p.symbols.negation ++ "\x7b" ++ inner ++ "\x7d"
    else
      p.symbols.negation ++ p.symbols.negationGap
        ++ parenthesize (operand.precedence < (Formula.not operand).precedence) inner
  | .binary op left right =>
    join (p.symbols.ofConnective op)
      (parenthesize (p.wrapsLeft op left) (p.render left))
      (parenthesize (wrapsRight op right) (p.render right))

end Printer

/-- A formula in the words that the parser reads. -/
def Formula.toText (f : Formula) : String := (Printer.mk Script.ascii.symbols false).render f

end CubeCover
