import CubeCover.Text.Printable

/-! Texts in quotes, as messages show them. Every control and every other character that cannot be
shown is written as an escape, so that a quoted text stays on its line. -/
namespace CubeCover.Text

/-- The last `width` hexadecimal digits of a number. -/
def hexDigits (width n : Nat) : List Char :=
  (List.range width).reverse.map fun i => Nat.digitChar (n / Nat.pow 16 i % 16)

/-- The escape of a character by its code point. -/
def pointEscape (point : Nat) : List Char :=
  if point < 0x100 then '\\' :: 'x' :: hexDigits 2 point
  else if point < 0x10000 then '\\' :: 'u' :: hexDigits 4 point
  else '\\' :: 'U' :: hexDigits 8 point

/-- What stands for a character between two delimiters. -/
def escape (delimiter c : Char) : List Char :=
  if c == delimiter || c == '\\' then ['\\', c]
  else if c == '\n' then ['\\', 'n']
  else if c == '\r' then ['\\', 'r']
  else if c == '\t' then ['\\', 't']
  else if isPrintable c then [c]
  else pointEscape c.toNat

/-- Apostrophes delimit a text, unless it holds one and no quotation mark. -/
def delimiterFor (cs : List Char) : Char :=
  if cs.contains '\'' && !cs.contains '"' then '"' else '\''

def quoted (text : String) : String :=
  let delimiter := delimiterFor text.toList
  String.ofList (delimiter :: text.toList.flatMap (escape delimiter) ++ [delimiter])

/-- A list of quoted texts in brackets. -/
def quotedList (texts : List String) : String :=
  "[" ++ ", ".intercalate (texts.map quoted) ++ "]"

end CubeCover.Text
