import CubeCover.Cube.Basic
import CubeCover.Text.Blank
import CubeCover.Text.Quoted

/-! The printed form of a cube, its digits in parentheses with commas between them, and its
reading. -/
namespace CubeCover

namespace Digit

def toChar : Digit → Char
  | zero => '0'
  | one => '1'
  | free => '-'

/-- The digit that a text of one character writes. -/
def ofChars? : List Char → Option Digit
  | ['0'] => some zero
  | ['1'] => some one
  | ['-'] => some free
  | _ => none

end Digit

/-- A part between two commas is no digit. -/
structure CubeTextError where
  part : String
  text : String
  deriving DecidableEq, Repr

def CubeTextError.message (e : CubeTextError) : String :=
  "Invalid cube digit '" ++ e.part ++ "' in " ++ Text.quoted e.text

namespace Cube

def toText (a : Cube) : String :=
  "(" ++ ",".intercalate (a.digits.map fun digit => String.ofList [digit.toChar]) ++ ")"

/-- A text without the parentheses around it, if both are there. -/
def unwrap (cs : List Char) : List Char :=
  match cs with
  | '(' :: rest => if rest.getLast? = some ')' then rest.dropLast else cs
  | _ => cs

/-- The digits that some parts write, or the first part that writes none. Blanks around a digit are
dropped. -/
def readDigits : List (List Char) → Except (List Char) (List Digit)
  | [] => .ok []
  | part :: parts =>
    match Digit.ofChars? (Text.trimBlanks part) with
    | none => .error (Text.trimBlanks part)
    | some digit =>
      match readDigits parts with
      | .error part => .error part
      | .ok digits => .ok (digit :: digits)

/-- Reads a cube. The parentheses may be missing. -/
def ofText (text : String) : Except CubeTextError Cube :=
  let body := unwrap (Text.trimBlanks text.toList)
  if body.all Text.isBlank then .ok ⟨[]⟩
  else
    match readDigits (body.splitOn ',') with
    | .ok digits => .ok ⟨digits⟩
    | .error part => .error ⟨String.ofList part, text⟩

end Cube

def ShapeMismatch.message : ShapeMismatch → String
  | cubes a b => "Cubes " ++ a.toText ++ " and " ++ b.toText ++ " have different lengths"
  | names cube count =>
    "Cube " ++ cube.toText ++ " has " ++ toString cube.length ++ " components but "
      ++ toString count ++ " variable names were given"
  | seeds => "All cubes must have the same size."
  | terms => "All cubes must have same number of components."

end CubeCover
