import Regen.Marker.Basic
import Regen.Text.Search
import Regen.Text.Indent

/-!
# Blocks

A block is an open marker, its end marker and the body between them. Blocks are *inline*, when
no line ends inside them, or take whole lines. Either way some of the text next to the markers is
written back together with them: the padding of an inline body, or all of the lines on which the
markers of the other blocks stand. The two spans of a block say what that is; its body is what
remains between them.
-/

namespace Regen

/-- A stretch of a text. -/
structure Span where
  /-- The offset of its first byte. -/
  start : Nat
  /-- The offset just past its last byte. -/
  stop : Nat
  deriving DecidableEq, Repr

/-- The bytes of a stretch. -/
def Span.of (t : Text) (s : Span) : Text := t.extract s.start s.stop

/-- An open marker with its end marker and its body. -/
structure Block where
  /-- The marker that opens it. -/
  opening : Marker
  /-- The marker that ends it. -/
  ending : Marker
  /-- How many blocks hold it, itself included. -/
  depth : Nat
  /-- Whether the block lies on one line. -/
  isInline : Bool
  /-- What is written back for the open marker. -/
  openSpan : Span
  /-- What is written back for the end marker. -/
  endSpan : Span
  /-- Where the body starts and stops. A block without a body can have its stop in front of its
  start; one that takes whole lines has the last line feed before its stop outside the body. -/
  bodySpan : Span
  /-- The body as it stands in the text. -/
  body : Text
  deriving DecidableEq

namespace Block

/-- The block on one line of an open and an end marker. The body loses what stands in front of
its first space and behind its last, which goes to the spans of the markers; a body without a
space is kept whole. -/
def inlineOf (t : Text) (opening ending : Marker) (depth : Nat) : Block :=
  let shape (openStop bodyStart bodyStop endStart : Nat) : Block :=
    { opening, ending, depth, isInline := true
      openSpan := ⟨opening.openAt, openStop⟩
      endSpan := ⟨endStart, ending.closeEnd⟩
      bodySpan := ⟨bodyStart, bodyStop⟩
      body := t.extract bodyStart bodyStop }
  match Text.byteIn? Text.space t opening.closeEnd ending.openAt with
  | none => shape opening.closeEnd opening.closeEnd ending.openAt ending.openAt
  | some first =>
    match Text.lastByteIn? Text.space t first ending.openAt with
    | none => shape first (first + 1) ending.openAt ending.openAt
    | some last => shape first (first + 1) last (last + 1)

/-- The block of whole lines of an open and an end marker. The body lies between the line on
which the open marker is closed and the line on which the end marker is opened. -/
def linesOf (t : Text) (opening ending : Marker) (depth : Nat) : Block :=
  let bodyStart := Text.lineStop t opening.closeEnd
  let bodyStop :=
    match Text.lastByteIn? Text.newline t opening.closeEnd ending.openAt with
    | some i => i + 1
    | none => 0
  { opening, ending, depth, isInline := false
    openSpan := ⟨opening.lineStart, bodyStart⟩
    endSpan := ⟨ending.lineStart, Text.lineStop t ending.closeEnd⟩
    bodySpan := ⟨bodyStart, bodyStop⟩
    body := if bodyStart < bodyStop then t.extract bodyStart (bodyStop - 1) else [] }

/-- The block of an open and an end marker. -/
def ofMarkers (t : Text) (opening ending : Marker) (depth : Nat) (isInline : Bool) : Block :=
  if isInline then inlineOf t opening ending depth else linesOf t opening ending depth

/-- The family of a block is that of its open marker. -/
def family (b : Block) : Family := b.opening.family

/-- The name in the header, which is the key of an edit. -/
def name (b : Block) : Text := b.opening.name

/-- The body without its indentation. A block without a body has no content. -/
def content (b : Block) : Option Text :=
  if b.body.isEmpty then none
  else if b.isInline then some b.body
  else some (Text.dedent b.opening.bodyColumn b.body)

/-! ## Snippets -/

/-- The start of a snippet, moved back over a number of lines. -/
def widenBack (t : Text) : (lines start : Nat) → Nat
  | 0, start => start
  | lines + 1, start => if start = 0 then 0 else widenBack t lines (Text.lineStart t (start - 1))

/-- The stop of a snippet, moved on over a number of lines. -/
def widenForward (t : Text) : (lines stop : Nat) → Nat
  | 0, stop => stop
  | lines + 1, stop =>
    if t.length ≤ stop then stop
    else
      match Text.byteIn? Text.newline t (stop + 1) t.length with
      | some i => widenForward t lines i
      | none => widenForward t lines t.length

/-- The lines of a block with some of the lines around it, without the last line feed. -/
def snippet (t : Text) (b : Block) (before after : Nat) : Text :=
  let start := if b.isInline then Text.lineStart t b.openSpan.start else b.openSpan.start
  let stop := if b.isInline then Text.lineStop t b.endSpan.stop else b.endSpan.stop
  let start := widenBack t before start
  let stop := widenForward t after stop
  if stop ≠ 0 && t[stop - 1]? == some Text.newline then t.extract start (stop - 1)
  else t.extract start stop

end Block

end Regen
