import Regen.Fault
import Regen.Text.Trim

/-!
# Markers

A marker is one occurrence of an opener, a header and a closer. What stands in front of the
opener on its line, the *lead*, decides how the lines of the header and of the body are
indented: a lead of blanks is indentation throughout, while in a lead that holds other bytes the
part up to the last of them, the *comment*, is to be repeated in front of every line of the
header.
-/

namespace Regen

/-- One marker of a text. -/
structure Marker where
  /-- The family it belongs to. -/
  family : Family
  /-- The tokens it is written with. -/
  tokens : Tokens
  /-- What stands in front of the opener on its line. -/
  lead : Text
  /-- The offset of the opener. -/
  openAt : Nat
  /-- The offset just past the closer. -/
  closeEnd : Nat
  /-- The lines of the header, freed of padding and indentation. A header in which nothing is
  written has none, which differs from a header of one empty line. -/
  headerLines : List Text
  deriving DecidableEq

namespace Marker

/-- The header. -/
def header (m : Marker) : Text := Text.ofLines m.headerLines

/-- Whether nothing is written in the header. -/
def headerEmpty (m : Marker) : Bool := m.headerLines.isEmpty

/-- Whether the marker ends a block. -/
def isEnd (m : Marker) : Bool := m.header == m.tokens.endWord

/-- The header without white space around it, which names an edit. -/
def name (m : Marker) : Text := m.header.trim

/-- The column of the opener, from zero and in bytes. -/
def column (m : Marker) : Nat := m.lead.length

/-- Where the line of the opener starts. -/
def lineStart (m : Marker) : Nat := m.openAt - m.lead.length

/-- The width of the comment in front of the opener: the lead without its last blanks. -/
def commentColumn (m : Marker) : Nat := (m.lead.reverse.dropWhile Text.isBlank).length

/-- The lead with everything but tabs blanked out. -/
def margin (m : Marker) : Text := m.lead.map fun b => if b = Text.tab then Text.tab else Text.space

/-- How far the lines of the body are indented: to the opener, or to the last word of the
comment in front of it. -/
def bodyColumn (m : Marker) : Nat :=
  if m.tokens.asComment || m.commentColumn = 0 then m.column
  else ((m.lead.reverse.dropWhile Text.isBlank).dropWhile (!Text.isBlank ·)).length

/-- What is written in front of every line of the body. -/
def bodyIndent (m : Marker) : Text := m.margin.take m.bodyColumn

/-- The marker as messages quote it. -/
def quoted (m : Marker) : Text := m.tokens.quote m.header

/-- The end marker of this marker's family, as messages quote it. -/
def quotedEnd (m : Marker) : Text := m.tokens.quote m.tokens.endWord

/-- The location of the opener in the text that holds the marker. -/
def place (m : Marker) (t : Text) : Location :=
  Location.ofOffset t m.openAt m.tokens.opener.length

end Marker

end Regen
