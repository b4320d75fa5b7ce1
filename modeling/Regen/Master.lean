import Regen.Generate
import Regen.Output

/-!
# Masters

A master is a document that outputs are regenerated from, with the settings and the mode that go
with it. It is read with plain line feeds, and its outputs get the line ends that it was read with,
unless the settings decide otherwise.

The output of a master can be the file that it was read from: then its own edits are the ones to
keep. Any other file that is there already is an earlier output, and the edits in it go before those
of the master.
-/

namespace Regen

/-- A document that outputs are regenerated from. -/
structure Master where
  /-- The document. -/
  document : Document
  /-- The settings it is read and regenerated with. -/
  settings : Settings
  /-- How it is regenerated. -/
  mode : Mode
  /-- The file it was read from. -/
  input : Option Path
  /-- Whether line feeds followed carriage returns where it was read from. -/
  hadCarriageReturns : Bool

/-- What goes into an output besides its master. -/
structure Recipe where
  /-- How templates are rendered. -/
  renderer : Renderer
  /-- The variables of templates. -/
  context : Context
  /-- Whether markers are removed. -/
  removeMarkers : Bool

/-- An output and what writing it does. -/
structure Rendered where
  /-- Where it is written. -/
  path : Path
  /-- Its text, with plain line feeds. -/
  content : Text
  /-- What writing it does to the file. -/
  status : Status

/-- The outcome of an operation on files. -/
def Outcome.ofFile {α : Type} : Except FileError α → Outcome α
  | .ok a => .ok a
  | .error e => fail (.file e)

/-- The edits in the file at a path. A file that is not there has none. -/
def FileTree.editsAt (tree : FileTree) (settings : Settings) (p : Path) : Outcome Edits :=
  match tree.readText p with
  | .ok t => do return (← Document.parse settings t).edits
  | .error .notFound => .ok []
  | .error e => fail (.file e)

namespace Master

/-- The master in a text. -/
def ofText (settings : Settings) (mode : Mode) (t : Text) : Outcome Master := do
  let document ← Document.parse settings t.normalizeNewlines
  return { document, settings, mode, input := none, hadCarriageReturns := t.hasCarriageReturns }

/-- The master in a file. -/
def ofFile (tree : FileTree) (settings : Settings) (mode : Mode) (p : Path) : Outcome Master := do
  let m ← ofText settings mode (← Outcome.ofFile (tree.readText p))
  return { m with input := some p }

/-- What a line feed is written as in the outputs of the master, if not as it is. -/
def newline (m : Master) : Option Text :=
  m.settings.newline <|> if m.hadCarriageReturns then some (Text.ofString "\r\n") else none

/-- The output with these bodies for its edits. -/
def renderWith (m : Master) (r : Recipe) (supplied : Supplied) : Outcome Text :=
  generate r.renderer r.context m.settings m.mode r.removeMarkers m.document supplied

/-- The edits of an earlier output. -/
def recover (m : Master) (previous : Text) : Outcome Supplied := do
  return { recovered := (← Document.parse m.settings previous.normalizeNewlines).edits }

/-- The output, which keeps the edits of an earlier output, if there is one. -/
def render (m : Master) (r : Recipe) (previous? : Option Text) : Outcome Text := do
  match previous? with
  | some previous => m.renderWith r (← m.recover previous)
  | none => m.renderWith r {}

/-- Whether a path leads to the file that the master was read from. -/
def isInput (m : Master) (tree : FileTree) (p : Path) : Bool :=
  match m.input with
  | some input => tree.same input p
  | none => false

/-- The earlier output in the file at a path, if there is a file and it is not the master's own. -/
def previousAt (m : Master) (tree : FileTree) (p : Path) : Outcome (Option Text) :=
  if !tree.isFile p || m.isInput tree p then .ok none
  else return some (← Outcome.ofFile (tree.readText p))

/-- The path an output goes to: the given one, or the file that the master was read from. -/
def outputPath (m : Master) (output? : Option Path) : Outcome Path :=
  match output? <|> m.input with
  | some p => .ok p
  | none => fail (.file .noOutputPath)

/-- The output for a file and what writing it would do. -/
def preview (m : Master) (tree : FileTree) (r : Recipe) (output? : Option Path) :
    Outcome Rendered := do
  let path ← m.outputPath output?
  let content ← m.render r (← m.previousAt tree path)
  let status ← Outcome.ofFile (tree.statusOf path (content.inFile m.newline))
  return { path, content, status }

/-- Writes the output to a file, unless it is there already. -/
def renderFile (m : Master) (tree : FileTree) (r : Recipe) (output? : Option Path) :
    Outcome (Rendered × FileTree) := do
  let rendered ← m.preview tree r output?
  let (status, tree) ← Outcome.ofFile
    (tree.update rendered.path (rendered.content.inFile m.newline))
  return ({ rendered with status }, tree)

end Master

end Regen
