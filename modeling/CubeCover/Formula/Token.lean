import CubeCover.Text.Blank
import CubeCover.Text.Word

/-! The tokens of a formula's text: parentheses, words, and single symbols. Blanks separate tokens
and are no part of them. -/
namespace CubeCover

inductive TokenKind
  | negation
  | conjunction
  | disjunction
  | verum
  | falsum
  | leftParen
  | rightParen
  | word
  | symbol
  deriving DecidableEq, Repr

/-- A token with its place: it covers the characters from `start` up to, not including, `stop`. -/
structure Token where
  kind : TokenKind
  text : String
  start : Nat
  stop : Nat
  deriving DecidableEq, Repr

namespace Token

/-- Five words are reserved, in exactly this spelling. -/
def wordKind (text : String) : TokenKind :=
  if text = "not" then .negation
  else if text = "and" then .conjunction
  else if text = "or" then .disjunction
  else if text = "true" then .verum
  else if text = "false" then .falsum
  else .word

/-- The token of a word that stands at an offset. -/
def ofWord (start : Nat) (word : List Char) : Token :=
  let text := String.ofList word
  ⟨wordKind text, text, start, start + word.length⟩

/-- The token of a character that is neither a blank nor a word character. -/
def ofSymbol (start : Nat) (c : Char) : Token :=
  let kind := if c = '(' then .leftParen else if c = ')' then .rightParen else .symbol
  ⟨kind, String.ofList [c], start, start + 1⟩

theorem length_dropWhile_le (p : Char → Bool) (cs : List Char) :
    (cs.dropWhile p).length ≤ cs.length :=
  (List.dropWhile_sublist p).length_le

/-- The tokens of a text whose first character stands at an offset. A word is as long as
possible. -/
def scanFrom (start : Nat) : List Char → List Token
  | [] => []
  | c :: rest =>
    if Text.isBlank c then scanFrom (start + 1) rest
    else if Text.isWord c then
      let word := c :: rest.takeWhile Text.isWord
      ofWord start word :: scanFrom (start + word.length) (rest.dropWhile Text.isWord)
    else ofSymbol start c :: scanFrom (start + 1) rest
termination_by cs => cs.length
decreasing_by
  · exact Nat.lt_succ_self _
  · exact Nat.lt_succ_of_le (length_dropWhile_le _ _)
  · exact Nat.lt_succ_self _

/-- The tokens of a text. -/
def scan (text : String) : List Token := scanFrom 0 text.toList

end Token

end CubeCover
