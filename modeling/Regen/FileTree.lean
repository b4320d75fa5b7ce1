import Regen.Fault
import Regen.Path

/-!
# File trees

A file tree says what stands at each place of a file system, and from which directory relative paths
start. Following a path needs a directory at every step: a step out of a file fails, and so does one
out of nothing, even a step back to where it came from. What the last step leads to need not exist,
for a file that is written is made there.

Reading and writing are functions of the tree. A write either gives a tree that differs from the old
one at a single place or gives an error, in which case there is no new tree at all.
-/

namespace Regen

/-- Where an entry stands: the names to follow from the root of all files. -/
abbrev Place := List String

/-- What can stand at a place. -/
inductive Entry where
  /-- A file with its bytes. -/
  | file (bytes : Text)
  /-- A directory. -/
  | directory
  deriving DecidableEq

/-- What stands at each place. -/
structure FileTree where
  /-- The entries by place. An entry hides those behind it with the same place. -/
  entries : List (Place × Entry) := []
  /-- The directory from which relative paths start. -/
  here : Place := []

namespace FileTree

/-! ## Places -/

/-- What stands at a place. There is always a root. -/
def entry? (t : FileTree) (place : Place) : Option Entry :=
  if place = [] then some .directory else t.entries.lookup place

/-- The tree with another entry at a place. -/
def set (t : FileTree) (place : Place) (entry : Entry) : FileTree :=
  { t with entries := (place, entry) :: t.entries.filter (·.1 != place) }

/-- The tree with nothing at a place. -/
def erase (t : FileTree) (place : Place) : FileTree :=
  { t with entries := t.entries.filter (·.1 != place) }

/-- The directories above a place, without the root. -/
def above (place : Place) : List Place := (Path.fronts place).dropLast

/-- The tree with an entry at a place and directories above it. -/
def add (t : FileTree) (place : Place) (entry : Entry) : FileTree :=
  ((above place).foldl (fun t p => t.set p .directory) t).set place entry

/-- The files with their places. -/
def files (t : FileTree) : List (Place × Text) :=
  t.entries.filterMap fun
    | (place, .file bytes) => some (place, bytes)
    | (_, .directory) => none

/-! ## Paths -/

/-- The place one piece of a path further on. -/
def advance (place : Place) (piece : String) : Place :=
  if Path.isTrivial piece then place
  else if piece = ".." then place.dropLast
  else place ++ [piece]

/-- The place that pieces of a path lead to. Each of them starts in a directory. -/
def walk (t : FileTree) : Place → List String → Except FileError Place
  | place, [] => .ok place
  | place, piece :: rest =>
    match t.entry? place with
    | some .directory => walk t (advance place piece) rest
    | some (.file _) => .error .notDirectory
    | none => .error .notFound

/-- Where a path starts. -/
def start (t : FileTree) (p : Path) : Place := if p.isAbsolute then [] else t.here

/-- The place that a path leads to, whether or not something stands there. -/
def resolve (t : FileTree) (p : Path) : Except FileError Place :=
  if p = "" then .error .notFound else t.walk (t.start p) p.pieces

/-- The place of the entry that a path leads to. -/
def locate (t : FileTree) (p : Path) : Except FileError Place := do
  let place ← t.resolve p
  if (t.entry? place).isSome then return place else .error .notFound

/-- Whether two paths lead to the same entry. -/
def same (t : FileTree) (p q : Path) : Bool :=
  match t.locate p, t.locate q with
  | .ok place, .ok place' => place = place'
  | _, _ => false

/-! ## Reading -/

/-- The bytes of the file at a path. -/
def readBytes (t : FileTree) (p : Path) : Except FileError Text := do
  let place ← t.resolve p
  match t.entry? place with
  | some (.file bytes) => return bytes
  | some .directory => .error .isDirectory
  | none => .error .notFound

/-- The text of the file at a path. -/
def readText (t : FileTree) (p : Path) : Except FileError Text := do
  let bytes ← t.readBytes p
  if bytes.isUTF8 then return bytes else .error .invalidText

/-- Whether a path leads to a file. -/
def isFile (t : FileTree) (p : Path) : Bool := (t.readBytes p).isOk

/-! ## Writing -/

/-- The pieces of a path without those behind slashes at its end. -/
def withoutSlashes (pieces : List String) : List String :=
  (pieces.reverse.dropWhile (· = "")).reverse

/-- The place at which a path has a file made or replaced. -/
def target (t : FileTree) (p : Path) : Except FileError Place := do
  if p = "" then .error .notFound
  else
    let pieces := p.pieces
    let place ← t.walk (t.start p) (withoutSlashes pieces)
    if pieces.getLast? = some "" || t.entry? place = some .directory then .error .isDirectory
    else return place

/-- The tree with these bytes in the file at a path. -/
def write (t : FileTree) (p : Path) (bytes : Text) : Except FileError FileTree := do
  return t.set (← t.target p) (.file bytes)

end FileTree

end Regen
