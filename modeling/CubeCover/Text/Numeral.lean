import CubeCover.Text.Blank

/-! Decimal integers as people type them: blanks around, a sign, digits of any script, and single
low lines between digits. -/
namespace CubeCover.Text

/-- The zeros of the decimal digits of Unicode 14; the digits of a script are consecutive. -/
def decimalZeros : List Nat :=
  [48, 1632, 1776, 1984, 2406, 2534, 2662, 2790, 2918, 3046, 3174, 3302, 3430, 3558, 3664, 3792,
   3872, 4160, 4240, 6112, 6160, 6470, 6608, 6784, 6800, 6992, 7088, 7232, 7248, 42528, 43216,
   43264, 43472, 43504, 43600, 44016, 65296, 66720, 68912, 69734, 69872, 69942, 70096, 70384,
   70736, 70864, 71248, 71360, 71472, 71904, 72016, 72784, 73040, 73120, 92768, 92864, 93008,
   120782, 120792, 120802, 120812, 120822, 123200, 123632, 125264, 130032]

/-- The value of a decimal digit of any script. -/
def digitValue? (c : Char) : Option Nat :=
  (decimalZeros.find? fun first => first ≤ c.toNat && c.toNat ≤ first + 9).map (c.toNat - ·)

/-- The blanks that may stand around a numeral: all but the separators U+001C to U+001F. -/
def isNumeralBlank (c : Char) : Bool :=
  Text.isBlank c && !(0x1C ≤ c.toNat && c.toNat ≤ 0x1F)

/-- The values of a run of digits in which a low line may stand between two digits. -/
def digitValues? : List Char → Option (List Nat)
  | [] => none
  | [c] => (digitValue? c).map ([·])
  | c :: '_' :: rest => do return (← digitValue? c) :: (← digitValues? rest)
  | c :: rest => do return (← digitValue? c) :: (← digitValues? rest)

/-- The most digits that a numeral may have. -/
def numeralLimit : Nat := 4300

/-- The number that digits without a sign write. -/
def natural? (cs : List Char) : Option Nat := do
  let values ← digitValues? cs
  if values.length ≤ numeralLimit then
    return values.foldl (fun total digit => total * 10 + digit) 0
  else none

/-- The integer that a text writes, or none. -/
def integer? (text : String) : Option Int :=
  let body := text.toList.dropWhile isNumeralBlank
  match (body.reverse.dropWhile isNumeralBlank).reverse with
  | '+' :: digits => (natural? digits).map Int.ofNat
  | '-' :: digits => (natural? digits).map fun n => -Int.ofNat n
  | digits => (natural? digits).map Int.ofNat

end CubeCover.Text
