import Regen.Document

/-!
# Holding generation blocks aside

When a whole text is rendered, its generation blocks are not to be seen by the renderer. They are
held aside, with a placeholder in the place of each, and put back into what was rendered. The
edit blocks outside of them take part in the rendering, so their bodies are part of the text and
no longer edits to put back.
-/

namespace Regen

/-- What stands for the `n`-th block held aside. -/
def placeholder (n : Nat) : Text := Text.ofString s!"°#@[COGMARK_{n}]+&*"

/-- A text whose generation blocks are being held aside. -/
structure Holding where
  /-- The text so far, with placeholders. -/
  buffer : Text := []
  /-- The blocks held aside, the latest first. -/
  held : List Span := []
  /-- The names of the edits outside of them. -/
  freed : List Text := []
  /-- Up to where the text has been dealt with. -/
  offset : Nat := 0
  /-- How many generation blocks are open. -/
  nesting : Nat := 0

namespace Holding

/-- Makes the block held aside last reach up to `stop`. -/
def extendLast (stop : Nat) : List Span → List Span
  | [] => []
  | s :: rest => { s with stop } :: rest

/-- Deals with one mark. -/
def step (t : Text) (h : Holding) (mark : Mark) : Holding :=
  let span := mark.span
  match mark.marker.family, mark with
  | .generation, .opening _ =>
    if h.nesting = 0 then
      { h with
        nesting := 1
        buffer := h.buffer ++ t.extract h.offset span.start ++ placeholder h.held.length
        held := ⟨span.start, span.start⟩ :: h.held }
    else { h with nesting := h.nesting + 1 }
  | .generation, .ending _ =>
    if h.nesting ≤ 1 then
      { h with nesting := 0, held := extendLast span.stop h.held, offset := span.stop }
    else { h with nesting := h.nesting - 1 }
  | .edit, .opening b => if h.nesting = 0 then { h with freed := b.name :: h.freed } else h
  | .edit, .ending _ =>
    if h.nesting = 0 then
      { h with buffer := h.buffer ++ t.extract h.offset span.stop, offset := span.stop }
    else h

/-- Deals with all marks of a document and with the rest of its text. -/
def ofDocument (d : Document) : Holding :=
  let h := d.marks.foldl (step d.source) {}
  { h with buffer := h.buffer ++ d.source.drop h.offset }

/-- Puts the blocks back into a rendered text, one after the other, each in the place of the first
occurrence of its placeholder. -/
def restore (source : Text) : (n : Nat) → List Span → (rendered : Text) → Text
  | _, [], rendered => rendered
  | n, s :: rest, rendered =>
    restore source (n + 1) rest (Text.replaceFirst (placeholder n) (s.of source) rendered)

end Holding

end Regen
