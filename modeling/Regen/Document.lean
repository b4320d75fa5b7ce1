import Regen.Marker.Scan
import Regen.Pairing

/-!
# Documents

A document is a text together with its marks and its edits. Reading one checks the settings,
finds the markers, pairs them, and collects the edits, whose names have to be distinct.
-/

namespace Regen

/-- An edit block, apart from the document it was read in. -/
structure EditBlock where
  /-- The text it stands in. -/
  source : Text
  /-- The block. -/
  block : Block
  /-- A body to use in place of the one in the text. -/
  replacement : Option Text := none
  /-- Whether it may be dropped when nothing asks for it. -/
  mayBeLost : Bool := false
  deriving DecidableEq

namespace EditBlock

/-- The name of the edit. -/
def name (e : EditBlock) : Text := e.block.name

/-- The body to put back, if there is one. -/
def content (e : EditBlock) : Option Text := e.replacement <|> e.block.content

end EditBlock

/-- Edits with distinct names. -/
abbrev Edits := List EditBlock

namespace Edits

/-- The edit of a name. -/
def get? (edits : Edits) (name : Text) : Option EditBlock := edits.find? (·.name == name)

/-- The edits without the one of a name. -/
def erase (edits : Edits) (name : Text) : Edits := edits.filter (·.name != name)

/-- These edits, where those in `later` take the place of the ones of the same name. -/
def union (edits later : Edits) : Edits :=
  edits.filter (fun e => (later.get? e.name).isNone) ++ later

/-- The bodies by name, without the edits that have none. -/
def bodies (edits : Edits) : List (Text × Text) :=
  edits.filterMap fun e => e.content.map (e.name, ·)

/-- Sets the body of the edit of a name, if there is one. -/
def setBody (edits : Edits) (name body : Text) : Edits :=
  edits.map fun e => if e.name = name then { e with replacement := some body } else e

/-- Lets the edit of a name be lost, if there is one. -/
def allowLoss (edits : Edits) (name : Text) : Edits :=
  edits.map fun e => if e.name = name then { e with mayBeLost := true } else e

end Edits

/-- A text that has been read. -/
structure Document where
  /-- The text. -/
  source : Text
  /-- Its open and end markers, in order, each with its block. -/
  marks : List Mark
  /-- Its edits, in order, with distinct names. -/
  edits : Edits

namespace Document

/-- The blocks in the order of their open markers. -/
def blocks (d : Document) : List Block := d.marks.filterMap Mark.opened?

/-- The blocks that no block holds. -/
def outermost (d : Document) : List Block := d.blocks.filter (·.depth = 1)

/-- The first edit block whose name one before it has, given the names before. -/
def duplicate? : (names : List Text) → List Block → Option Block
  | _, [] => none
  | names, b :: rest =>
    if b.name ∈ names then some b else duplicate? (b.name :: names) rest

/-- Checks that the tokens of a family are not empty. -/
def checkTokens (family : Family) (k : Tokens) : Outcome Unit :=
  if k.opener.isEmpty then fail (.emptyToken family .opener)
  else if k.closer.isEmpty then fail (.emptyToken family .closer)
  else if k.endWord.isEmpty then fail (.emptyToken family .endWord)
  else .ok ()

/-- Checks that no token is empty. -/
def checkSettings (settings : Settings) : Outcome Unit := do
  checkTokens .generation settings.generation
  checkTokens .edit settings.edit

/-- Reads a text. -/
def parse (settings : Settings) (t : Text) : Outcome Document := do
  checkSettings settings
  let markers ← Marker.scanAll t settings
  let marks ← pairMarkers t markers
  let edits := (marks.filterMap Mark.opened?).filter (·.family = .edit)
  match duplicate? [] edits with
  | some b => failAt (.duplicateEdit b.opening.quoted) (b.opening.place t)
  | none => return { source := t, marks, edits := edits.map fun block => { source := t, block } }

end Document

end Regen
