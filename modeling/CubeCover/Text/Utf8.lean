import CubeCover.Text.Quoted

/-! Reading UTF-8. A text that is not well formed is refused at the first byte that no longer
continues any well-formed text, and the refusal names the bytes that were read in vain. -/
namespace CubeCover.Text

inductive Utf8Fault
  /-- No character starts with the byte. -/
  | start
  /-- The byte that follows does not continue the character. -/
  | continuation
  /-- The text ends inside a character. -/
  | ending
  deriving DecidableEq, Repr

/-- A refusal: the bytes from offset `first` to offset `last` make no character. -/
structure Utf8Error where
  fault : Utf8Fault
  first : Nat
  last : Nat
  /-- The byte at offset `first`. -/
  byte : UInt8
  deriving DecidableEq, Repr

namespace Utf8Error

def reason (e : Utf8Error) : String :=
  match e.fault with
  | .start => "invalid start byte"
  | .continuation => "invalid continuation byte"
  | .ending => "unexpected end of data"

def message (e : Utf8Error) : String :=
  let place :=
    if e.first = e.last then
      "byte 0x" ++ String.ofList (hexDigits 2 e.byte.toNat) ++ " in position " ++ toString e.first
    else "bytes in position " ++ toString e.first ++ "-" ++ toString e.last
  "'utf-8' codec can't decode " ++ place ++ ": " ++ e.reason

end Utf8Error

/-- A character whose first bytes are read. -/
structure Utf8Partial where
  /-- The offset of its first byte. -/
  first : Nat
  /-- Its first byte. -/
  byte : UInt8
  /-- The bits read. -/
  value : Nat
  /-- How many bytes are still owed. -/
  owed : Nat
  /-- The least value of the next byte. -/
  low : Nat
  /-- The greatest value of the next byte. -/
  high : Nat

/-- The character that a byte above U+007F opens. The bounds on the second byte exclude overlong
forms, surrogates and everything above U+10FFFF. -/
def Utf8Partial.open? (first : Nat) (byte : UInt8) : Option Utf8Partial :=
  let b := byte.toNat
  if b < 0xC2 then none
  else if b < 0xE0 then some ⟨first, byte, b - 0xC0, 1, 0x80, 0xBF⟩
  else if b < 0xF0 then
    some ⟨first, byte, b - 0xE0, 2, if b = 0xE0 then 0xA0 else 0x80, if b = 0xED then 0x9F else 0xBF⟩
  else if b < 0xF5 then
    some ⟨first, byte, b - 0xF0, 3, if b = 0xF0 then 0x90 else 0x80, if b = 0xF4 then 0x8F else 0xBF⟩
  else none

/-- Reads bytes from an offset on, in the middle of a character if `current` holds one; `read` are
the characters before, the last one first. -/
def decodeFrom (offset : Nat) (current : Option Utf8Partial) (read : List Char) :
    List UInt8 → Except Utf8Error (List Char)
  | [] =>
    match current with
    | none => .ok read.reverse
    | some p => .error ⟨.ending, p.first, offset - 1, p.byte⟩
  | byte :: rest =>
    match current with
    | none =>
      if byte.toNat < 0x80 then decodeFrom (offset + 1) none (Char.ofNat byte.toNat :: read) rest
      else
        match Utf8Partial.open? offset byte with
        | none => .error ⟨.start, offset, offset, byte⟩
        | some p => decodeFrom (offset + 1) (some p) read rest
    | some p =>
      if p.low ≤ byte.toNat ∧ byte.toNat ≤ p.high then
        let value := p.value * 64 + byte.toNat % 64
        if p.owed ≤ 1 then decodeFrom (offset + 1) none (Char.ofNat value :: read) rest
        else
          decodeFrom (offset + 1)
            (some ⟨p.first, p.byte, value, p.owed - 1, 0x80, 0xBF⟩) read rest
      else .error ⟨.continuation, p.first, offset - 1, p.byte⟩

def decodeUtf8 (bytes : List UInt8) : Except Utf8Error (List Char) :=
  decodeFrom 0 none [] bytes

/-- Every line end becomes a line feed: a carriage return alone, and one with its line feed. -/
def foldLineEnds : List Char → List Char
  | [] => []
  | '\r' :: '\n' :: rest => '\n' :: foldLineEnds rest
  | '\r' :: rest => '\n' :: foldLineEnds rest
  | c :: rest => c :: foldLineEnds rest

end CubeCover.Text
