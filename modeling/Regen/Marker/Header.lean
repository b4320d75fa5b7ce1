import Regen.Marker.Basic

/-!
# Reading headers

A header on one line is what stands between opener and closer, less one space of padding on
either side. A header of several lines starts after the opener, and each of its further lines
repeats what stands in front of the opener: the comment as anything at all, then the same tabs
and spaces. That is checked byte by byte and then cut off, and a header line that ends early is
an empty line.
-/

namespace Regen.Marker

/-- Whether byte `b` of a header line may stand in column `i`, where the margin has `wanted`:
tabs and blanks have to match, and a comment may hold anything else. -/
def repeats (comment i : Nat) (wanted b : UInt8) : Bool :=
  if b = Text.space then wanted != Text.tab
  else if b = Text.tab then wanted == Text.tab
  else i < comment

/-- The first column in which a header line does not repeat the margin. A line that ends in a
line feed may end early, though not inside the comment. -/
def mismatch? (comment : Nat) (terminated : Bool) : (i : Nat) → (margin line : Text) → Option Nat
  | _, [], _ => none
  | i, _ :: _, [] => if comment ≤ i && terminated then none else some i
  | i, wanted :: margin, b :: line =>
    if repeats comment i wanted b then mismatch? comment terminated (i + 1) margin line
    else some i

/-- A further header line without its margin. A margin that ends inside a character takes the
whole character with it. -/
def cutMargin (column : Nat) (line : Text) : Text := Text.toCharStart (line.drop column)

/-- Reads the header lines after the first, the next of which starts at `offset`. The last one
ends at the closer; it is padded, and counts only if something stands past the margin. The
error is the offset of the byte that breaks the margin. -/
def readFurther (t margin : Text) (comment : Nat) : (offset : Nat) → List Text →
    Except Nat (List Text)
  | _, [] => .ok []
  | offset, line :: more =>
    let terminated := t[offset + line.length]? == some Text.newline
    match mismatch? comment terminated 0 margin line with
    | some i => .error (offset + i)
    | none =>
      if more.isEmpty then
        if margin.length < line.length then
          .ok [Text.dropEndPadding (cutMargin margin.length line)]
        else .ok []
      else
        match readFurther t margin comment (offset + line.length + 1) more with
        | .ok lines => .ok (cutMargin margin.length line :: lines)
        | .error i => .error i

/-- The first line of a header of several. -/
def firstLine (line : Text) : List Text :=
  if line.isEmpty then [] else [Text.dropPadding line]

/-- The problem with a header, and its offset. -/
abbrev HeaderFlaw := Problem × Nat

/-- Reads the lines of the header of the marker `m`, whose closer stands at `closeAt`. Only the
lead, the tokens and the opener's offset of `m` are looked at. -/
def readHeader (t : Text) (m : Marker) (closeAt : Nat) : Except HeaderFlaw (List Text) :=
  let start := m.openAt + m.tokens.opener.length
  let raw := t.extract start closeAt
  if Text.newline ∉ t.extract m.openAt closeAt then
    if m.tokens.headerRule = .multiline then .error (.headerMustBeMultiline, m.openAt)
    else
      let header := Text.unpad raw
      .ok (if header.isEmpty then [] else [header])
  else if m.tokens.headerRule = .inline then .error (.headerMustBeInline, m.openAt)
  else
    match Text.lines raw with
    | [] => .ok []
    | first :: more =>
      let further := if more.isEmpty then [[]] else more
      match readFurther t m.margin m.commentColumn (start + first.length + 1) further with
      | .ok lines => .ok (firstLine first ++ lines)
      | .error offset => .error (.headerIndentation, offset)

end Regen.Marker
