/-! Paths of files. Empty parts and parts of a single dot say nothing and are left out; parts of two
dots are kept, since what they mean depends on the directories. -/
namespace CubeCover.Cli

/-- Where a path begins. -/
inductive Anchor
  | here
  | root
  /-- Exactly two slashes, which are not read as one. -/
  | doubleRoot
  deriving DecidableEq, Repr

structure Path where
  anchor : Anchor
  parts : List String
  deriving DecidableEq, Repr

namespace Path

def anchorOf : List Char → Anchor
  | '/' :: '/' :: '/' :: _ => .root
  | '/' :: '/' :: _ => .doubleRoot
  | '/' :: _ => .root
  | _ => .here

def ofText (text : String) : Path :=
  let parts := (text.toList.splitOn '/').map String.ofList
  ⟨anchorOf text.toList, parts.filter fun part => part != "" && part != "."⟩

def toText (p : Path) : String :=
  match p.anchor with
  | .here => if p.parts.isEmpty then "." else "/".intercalate p.parts
  | .root => "/" ++ "/".intercalate p.parts
  | .doubleRoot => "//" ++ "/".intercalate p.parts

end Path

end CubeCover.Cli
