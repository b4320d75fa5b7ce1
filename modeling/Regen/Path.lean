/-!
# Paths

Paths are strings with slashes, and are joined and cut as such: what is shown to a user is what was
put together, not a normal form. Two paths agree on a piece if they name the same step; empty
pieces and single dots are no steps, except that a path may begin with a dot.
-/

namespace Regen

/-- A path as it is written. -/
abbrev Path := String

/-- One step of a path. -/
inductive PathStep where
  /-- To the root of all files. -/
  | root
  /-- The dot at the beginning of a path. -/
  | here
  /-- To the directory above. -/
  | up
  /-- To an entry of a directory. -/
  | named (name : String)
  deriving DecidableEq

namespace Path

/-- Whether a path starts at the root of all files. -/
def isAbsolute (p : Path) : Bool := p.toList.head? = some '/'

/-- What stands between the slashes of a path. The slash at its beginning is left out. -/
def pieces (p : Path) : List String :=
  let cs := p.toList
  split [] (if cs.head? = some '/' then cs.drop 1 else cs)
where
  /-- Splits at slashes; `piece` is the piece that is being read, reversed. -/
  split (piece : List Char) : List Char → List String
    | [] => [String.ofList piece.reverse]
    | c :: cs =>
      if c = '/' then String.ofList piece.reverse :: split [] cs else split (c :: piece) cs

/-- What the first piece, the first two, and so on up to all of them make up. -/
def fronts : List String → List (List String)
  | [] => []
  | piece :: rest => [piece] :: (fronts rest).map (piece :: ·)

/-- Whether a piece is no step. -/
def isTrivial (piece : String) : Bool := piece = "" || piece = "."

/-- The step of a piece that is one. -/
def stepOf (piece : String) : PathStep := if piece = ".." then .up else .named piece

/-- The steps of a path. -/
def steps (p : Path) : List PathStep :=
  let ps := pieces p
  let first :=
    if isAbsolute p then [PathStep.root]
    else if ps.head? = some "." then [.here]
    else []
  first ++ (ps.filter (!isTrivial ·)).map stepOf

/-- A path behind another one. An absolute path stays as it is. -/
def join (base p : Path) : Path :=
  if isAbsolute p then p
  else if base = "" || base.toList.getLast? = some '/' then base ++ p
  else base ++ "/" ++ p

/-- Pieces without the trivial ones in front. -/
def trimFront (ps : List String) : List String := ps.dropWhile isTrivial

/-- Pieces without the trivial ones at the end. -/
def trimEnd (ps : List String) : List String := (ps.reverse.dropWhile isTrivial).reverse

/-- The pieces left when these steps have been taken, if the path begins with them. -/
def takeSteps : List PathStep → List String → Option (List String)
  | [], ps => some ps
  | step :: steps, ps =>
    match trimFront ps with
    | piece :: rest => if stepOf piece = step then takeSteps steps rest else none
    | [] => none

/-- What a path leaves when another one is taken off its front, if it begins with that. -/
def relativeTo? (base p : Path) : Option Path :=
  let ps := pieces p
  match steps base with
  | [] =>
    let lead := if isAbsolute p then "/" else ""
    match ps with
    | "." :: rest => if isAbsolute p then some (lead ++ "/".intercalate (trimEnd ps))
      else some ("/".intercalate ("." :: trimEnd rest))
    | _ => some (lead ++ "/".intercalate (trimEnd ps))
  | .root :: rest =>
    if isAbsolute p then (takeSteps rest ps).map finish else none
  | .here :: rest =>
    if !isAbsolute p && ps.head? = some "." then (takeSteps rest (ps.drop 1)).map finish else none
  | all =>
    if isAbsolute p || ps.head? = some "." then none else (takeSteps all ps).map finish
where
  /-- The path of the pieces that are left. -/
  finish (ps : List String) : Path := "/".intercalate (trimEnd (trimFront ps))

/-- A path as shown to a user of the project at `base`. -/
def shownFrom (base p : Path) : Path := (relativeTo? base p).getD p

end Path

end Regen
