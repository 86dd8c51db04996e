import CubeCover.Formula.Basic
import CubeCover.Formula.Token

/-! Reading a formula from its text. A disjunction is a chain of conjunctions, a conjunction is a
chain of factors, and a factor is a negated factor, a disjunction in parentheses, or an atom. Chains
group to the right. A reader hands on the tokens that it leaves, fewer than it was given. -/
namespace CubeCover

/-- Why a text is no formula. `found` is the text of the token that cannot stand there, or none at
the end of the text. -/
inductive ParseError
  | emptyText
  | missingOperand (found : Option String)
  | unclosed (found : Option String)
  | trailing (found : String)
  deriving DecidableEq, Repr

namespace ParseError

/-- What should have stood there. -/
def expected : ParseError → String
  | emptyText => "formula"
  | missingOperand _ => "operand"
  | unclosed _ => "')'"
  | trailing _ => "end of input"

/-- What stood there. -/
def found? : ParseError → Option String
  | emptyText => none
  | missingOperand found => found
  | unclosed found => found
  | trailing found => some found

def message : ParseError → String
  | emptyText => "Input formula is empty."
  | missingOperand none => "No operand found: unexpected end of input"
  | missingOperand (some found) => "No operand found: got " ++ Text.quoted found
  | unclosed none => "Unexpected token: expected ')', got end of input"
  | unclosed (some found) => "Unexpected token: expected ')', got " ++ Text.quoted found
  | trailing found => "Unexpected token at end of input: " ++ Text.quoted found

end ParseError

/-- What a reader reads: a chain of a connective, or a factor. -/
inductive Level
  | chain (op : Connective)
  | factor
  deriving DecidableEq, Repr

def Level.rank : Level → Nat
  | .factor => 0
  | .chain .and => 1
  | .chain .or => 2

/-- What the links of a chain are. -/
def Connective.link : Connective → Level
  | .or => .chain .and
  | .and => .factor

/-- The token that joins the links of a chain. -/
def Connective.token : Connective → TokenKind
  | .or => .disjunction
  | .and => .conjunction

theorem Connective.rank_link_lt (op : Connective) : op.link.rank < (Level.chain op).rank := by
  cases op <;> decide

/-- A formula read from the front of some tokens, and the tokens after it. -/
structure Parsed (tokens : List Token) where
  formula : Formula
  rest : List Token
  shorter : rest.length < tokens.length

/-- Reads a formula of a level from the front of the tokens. -/
def Level.read (level : Level) (tokens : List Token) : Except ParseError (Parsed tokens) :=
  match level with
  | .chain op =>
    match op.link.read tokens with
    | .error e => .error e
    | .ok ⟨left, [], h⟩ => .ok ⟨left, [], h⟩
    | .ok ⟨left, token :: rest, h⟩ =>
      if token.kind = op.token then
        match (Level.chain op).read rest with
        | .error e => .error e
        | .ok ⟨right, rest', h'⟩ =>
          .ok ⟨.binary op left right, rest', Nat.lt_trans h' (Nat.lt_of_succ_lt h)⟩
      else .ok ⟨left, token :: rest, h⟩
  | .factor =>
    match tokens with
    | [] => .error (.missingOperand none)
    | token :: rest =>
      match token.kind with
      | .negation =>
        match Level.factor.read rest with
        | .error e => .error e
        | .ok ⟨operand, rest', h⟩ => .ok ⟨.not operand, rest', Nat.lt_succ_of_lt h⟩
      | .leftParen =>
        match (Level.chain .or).read rest with
        | .error e => .error e
        | .ok ⟨_, [], _⟩ => .error (.unclosed none)
        | .ok ⟨inner, close :: rest', h⟩ =>
          if close.kind = .rightParen then
            .ok ⟨inner, rest', Nat.lt_succ_of_lt (Nat.lt_of_succ_lt h)⟩
          else .error (.unclosed (some close.text))
      | .verum => .ok ⟨.verum, rest, Nat.lt_succ_self _⟩
      | .falsum => .ok ⟨.falsum, rest, Nat.lt_succ_self _⟩
      | .word => .ok ⟨.atom token.text, rest, Nat.lt_succ_self _⟩
      | .symbol => .ok ⟨.atom token.text, rest, Nat.lt_succ_self _⟩
      | .conjunction => .error (.missingOperand (some token.text))
      | .disjunction => .error (.missingOperand (some token.text))
      | .rightParen => .error (.missingOperand (some token.text))
termination_by (tokens.length, level.rank)
decreasing_by
  · exact Prod.Lex.right _ op.rank_link_lt
  · exact Prod.Lex.left _ _ (Nat.lt_of_succ_lt h)
  · exact Prod.Lex.left _ _ (Nat.lt_succ_self _)
  · exact Prod.Lex.left _ _ (Nat.lt_succ_self _)

namespace Formula

/-- The formula that a list of tokens writes, all of them used. -/
def ofTokens : List Token → Except ParseError Formula
  | [] => .error .emptyText
  | tokens =>
    match (Level.chain .or).read tokens with
    | .error e => .error e
    | .ok ⟨f, [], _⟩ => .ok f
    | .ok ⟨_, token :: _, _⟩ => .error (.trailing token.text)

/-- Reads a formula from its text. -/
def parse (text : String) : Except ParseError Formula := ofTokens (Token.scan text)

end Formula

end CubeCover
