import Regen.FileTree

/-!
# Output files

A file is written only if its bytes would change. What a write would do can be told beforehand,
without writing.
-/

namespace Regen

/-- What a write does to a file. -/
inductive Status where
  /-- There was no file, and it is made. -/
  | created
  /-- The file gets other bytes. -/
  | changed
  /-- The file holds these bytes already and is left alone. -/
  | unchanged
  deriving DecidableEq, Repr

/-- The status in seven columns. -/
def Status.label : Status → String
  | .created => "  new  "
  | .changed => "changed"
  | .unchanged => "-------"

namespace Text

/-- The bytes of a text in a file whose lines end in `mark?`, if that is given. -/
def inFile (mark? : Option Text) (t : Text) : Text :=
  match mark? with
  | some mark => t.withNewline mark
  | none => t

end Text

namespace FileTree

/-- What writing these bytes would do. -/
def statusOf (t : FileTree) (p : Path) (bytes : Text) : Except FileError Status :=
  match t.readBytes p with
  | .ok existing => .ok (if existing = bytes then .unchanged else .changed)
  | .error .notFound => .ok .created
  | .error e => .error e

/-- Writes these bytes unless the file holds them. -/
def update (t : FileTree) (p : Path) (bytes : Text) : Except FileError (Status × FileTree) := do
  match ← t.statusOf p bytes with
  | .unchanged => return (.unchanged, t)
  | status => return (status, ← t.write p bytes)

end FileTree

end Regen
