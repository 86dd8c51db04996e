import CubeCover.Text.Ranges

/-! Blanks: the characters of the Unicode property White_Space and the four separators
U+001C to U+001F. They separate tokens and are dropped at the ends of a text. -/
namespace CubeCover.Text

/-- The blanks as ranges of code points. -/
def blankRanges : List (Nat × Nat) :=
  [(9, 13), (28, 32), (133, 133), (160, 160), (5760, 5760), (8192, 8202), (8232, 8233),
   (8239, 8239), (8287, 8287), (12288, 12288)]

def isBlank (c : Char) : Bool := inRanges c.toNat blankRanges

def dropBlanks (cs : List Char) : List Char := cs.dropWhile isBlank

def dropBlanksEnd (cs : List Char) : List Char := (cs.reverse.dropWhile isBlank).reverse

/-- A text without the blanks at either end. -/
def trimBlanks (cs : List Char) : List Char := dropBlanksEnd (dropBlanks cs)

end CubeCover.Text
