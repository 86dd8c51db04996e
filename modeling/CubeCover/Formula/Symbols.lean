import CubeCover.Text.Quoted

/-! The symbols that formulas are printed with. Three sets are known by name, any other is made from
its entries. -/
namespace CubeCover

/-- The symbols of one set. The last two stand in the set for completeness; no formula has them. -/
structure Symbols where
  negation : String
  conjunction : String
  disjunction : String
  implication : String
  equivalence : String
  /-- The symbol of the negation is an accent: its operand follows in braces. -/
  negationWraps : Bool
  deriving DecidableEq, Repr

/-- The sets known by name. -/
inductive Script
  | ascii
  | latex
  | unicode
  deriving DecidableEq, Repr

inductive SymbolsError
  | unknownName (name : String)
  | missing (keys : List String)
  deriving DecidableEq, Repr

namespace Script

def name : Script → String
  | ascii => "ascii"
  | latex => "latex"
  | unicode => "unicode"

/-- The sets in the order of their names. -/
def all : List Script := [ascii, latex, unicode]

def symbols : Script → Symbols
  | ascii => ⟨"not", "and", "or", "->", "<->", false⟩
  | latex => ⟨"\\bar", "", "\\lor", "\\implies", "\\iff", true⟩
  | unicode => ⟨"¬", "∧", "∨", "→", "↔", false⟩

def ofName (name : String) : Except SymbolsError Script :=
  match all.find? (·.name = name) with
  | some script => .ok script
  | none => .error (.unknownName name)

end Script

def SymbolsError.message : SymbolsError → String
  | unknownName name =>
    "Unknown symbol table '" ++ name ++ "', expected one of "
      ++ Text.quotedList (Script.all.map Script.name)
  | missing keys => "Symbol table is missing keys: " ++ Text.quotedList keys

namespace Symbols

/-- The keys of the symbols, in alphabetical order. -/
def keys : List String := ["and", "equivalence", "implication", "not", "or"]

/-- The symbols with their keys. -/
def entries (s : Symbols) : List (String × String) :=
  [("not", s.negation), ("and", s.conjunction), ("or", s.disjunction),
   ("implication", s.implication), ("equivalence", s.equivalence)]

/-- The symbols under their keys. Each key is needed, and no other is looked at. -/
def ofEntries (entries : List (String × String)) (negationWraps : Bool) :
    Except SymbolsError Symbols :=
  match entries.lookup "not", entries.lookup "and", entries.lookup "or",
      entries.lookup "implication", entries.lookup "equivalence" with
  | some negation, some conjunction, some disjunction, some implication, some equivalence =>
    .ok ⟨negation, conjunction, disjunction, implication, equivalence, negationWraps⟩
  | _, _, _, _, _ => .error (.missing (keys.filter fun key => (entries.lookup key).isNone))

end Symbols

end CubeCover
