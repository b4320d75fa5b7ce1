import Regen.Generate.Directive
import Regen.Generate.Holding

/-!
# Generating output

In directive mode the headers of generation markers are rendered and nothing else. In document
mode the whole text is rendered first, with its generation blocks held aside, and the result is
read as a text and regenerated like any other. Either way, an edit at hand that was never put back
is an error, since its body would be lost.
-/

namespace Regen

/-- Bodies for edits that come from outside the text. -/
structure Supplied where
  /-- Bodies that go before all others, by name. -/
  overrides : List (Text × Text) := []
  /-- The edits of an earlier output. They go before the edits of the text itself. -/
  recovered : Edits := []

namespace Run

/-- The outcome of a computation that begins with no edit asked for, provided that afterwards
none of these edits is lost. -/
def complete (edits : Edits) (generation : Claiming Text) : Outcome Text := do
  let (output, claimed) ← generation.run []
  edits.checkClaimed claimed
  return output

/-- Regenerates a document in directive mode. -/
def directiveMode (run : Run) (d : Document) (recovered : Edits) : Outcome Text :=
  let edits := d.edits.union recovered
  complete edits (run.outermost [edits] d)

/-- The text of a document as it is handed over to be regenerated in document mode: rendered as
a whole, with the generation blocks put back. -/
def renderedDocument (run : Run) (d : Document) : Outcome Text :=
  let h := Holding.ofDocument d
  match run.render h.buffer with
  | .ok rendered => .ok (Holding.restore d.source 0 h.held.reverse rendered)
  | .error e => fail (.template e)

/-- Regenerates a document in document mode. -/
def documentMode (run : Run) (d : Document) (recovered : Edits) : Outcome Text := do
  let rendered ← run.renderedDocument d
  let freed := (Holding.ofDocument d).freed
  let edits := Edits.union (d.edits.filter (·.name ∉ freed)) recovered
  complete edits <|
    if rendered.isEmpty then return []
    else do
      let d ← Document.parse run.settings rendered
      run.outermost (Pool.beneath [edits] d.edits) d

end Run

/-- Generates the output of a document. -/
def generate (renderer : Renderer) (context : Context) (settings : Settings) (mode : Mode)
    (removeMarkers : Bool) (d : Document) (supplied : Supplied) : Outcome Text :=
  let run : Run :=
    { render := (renderer · context), settings, removeMarkers, overrides := supplied.overrides }
  match mode with
  | .directive => run.directiveMode d supplied.recovered
  | .document => run.documentMode d supplied.recovered

end Regen
