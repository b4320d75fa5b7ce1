import Regen.Text.Search

/-!
# Lines, columns and locations

A reader is told where something went wrong by line and column, both counted from one, columns
in characters. Offsets are turned into such points through a table of line starts that is
searched by halving. A location also keeps the line itself, so that it can be shown with
carets under it after the text is gone.
-/

namespace Regen

/-- A text with the offsets at which its lines start, in order. The first is always zero. -/
structure LineTable where
  /-- The text whose lines are listed. -/
  text : Text
  /-- The offset of the first byte of every line. -/
  starts : Array Nat

namespace LineTable

/-- The starts of the lines after the first, for a text that begins at `offset`. -/
def startsAfter : Nat → Text → List Nat
  | _, [] => []
  | offset, b :: rest =>
    if b = Text.newline then (offset + 1) :: startsAfter (offset + 1) rest
    else startsAfter (offset + 1) rest

/-- The table of a text. -/
def ofText (t : Text) : LineTable := ⟨t, (0 :: startsAfter 0 t).toArray⟩

/-- The last index from `low` on, and below `high`, whose start is not after `offset`, given
that the start at `low` is not. Each step halves the range, so the number of lines is more than
enough steps. -/
def searchFrom (starts : Array Nat) (offset : Nat) : (steps low high : Nat) → Nat
  | 0, low, _ => low
  | steps + 1, low, high =>
    if low + 1 < high then
      let middle := (low + high) / 2
      if starts.getD middle 0 ≤ offset then searchFrom starts offset steps middle high
      else searchFrom starts offset steps low middle
    else low

/-- The index, from zero, of the line that holds an offset. -/
def lineIndex (table : LineTable) (offset : Nat) : Nat :=
  searchFrom table.starts offset table.starts.size 0 table.starts.size

/-- Where the line that holds an offset starts. -/
def startOf (table : LineTable) (offset : Nat) : Nat :=
  table.starts.getD (table.lineIndex offset) 0

/-- The offset a signed number stands for: from the start of the text, and no further than its
end, or, if negative, backwards from its end and around. -/
def resolve (table : LineTable) (n : Int) : Nat :=
  if table.text.isEmpty then 0
  else if n < 0 then (n % (table.text.length : Int)).toNat
  else min n.toNat table.text.length

/-- Line and column of an offset, both from one. The column counts characters; for an offset
inside a character it counts bytes. -/
def point (table : LineTable) (offset : Nat) : Nat × Nat :=
  let start := table.startOf offset
  let column :=
    if table.text.isCharStart offset then Text.charCount (table.text.extract start offset)
    else offset - start
  (table.lineIndex offset + 1, column + 1)

/-- The line that holds an offset without its line feed, and whether it has one. -/
def lineAt (table : LineTable) (offset : Nat) : Text × Bool :=
  let start := table.startOf offset
  match Text.byteIn? Text.newline table.text start table.text.length with
  | some stop => (table.text.extract start stop, true)
  | none => (table.text.drop start, false)

/-- The line that holds an offset with a visible sign for how it ends. -/
def excerptAt (table : LineTable) (offset : Nat) : Text :=
  let (line, terminated) := table.lineAt offset
  line ++ if terminated then Text.ofString "\\n" else Text.ofString "\\0"

end LineTable

/-- A point in some text, with what is needed to show it. -/
structure Location where
  /-- The line, from one. -/
  line : Nat
  /-- The column in characters, from one. -/
  column : Nat
  /-- The line itself with a visible sign for how it ends. -/
  excerpt : Text
  /-- How many carets to draw. -/
  width : Nat
  deriving DecidableEq

namespace Location

/-- The location of an offset in a text. -/
def ofOffset (t : Text) (offset width : Nat) : Location :=
  let table := LineTable.ofText t
  let resolved := table.resolve offset
  let (line, column) := table.point resolved
  { line, column, excerpt := table.excerptAt resolved, width }

/-- The excerpt with carets under the point, then the point in numbers. -/
def render (l : Location) : String :=
  let carets := "".pushn ' ' (l.column - 1) |>.pushn '^' l.width
  s!"{l.excerpt.shown}\n{carets} line {l.line}, column {l.column}"

end Location

/-- A text cut to `limit` characters, with dots after the cut, and with its tabs and line feeds
spelled out, so that it fits on one line of a message. -/
def Text.abbreviate (limit : Nat) (t : Text) : Text :=
  let kept := t.takeChars limit
  let whole := if kept.length < t.length then kept ++ Text.ofString "..." else kept
  whole.flatMap fun b =>
    if b = tab then Text.ofString "\\t" else if b = newline then Text.ofString "\\n" else [b]

end Regen
