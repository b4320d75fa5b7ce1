import Regen.Pool
import Regen.Renderer

/-!
# Regenerating the blocks of a text

Each outermost block of a text is resolved: the header of a generation marker is rendered, and
for an edit marker the body of its edit is taken. What comes of that may hold markers of its own,
so it is read as a text and its blocks are regenerated in turn, up to a limit. The result becomes
the body of the block. Nothing else of the text is touched, except that the markers are left out
if they are to be removed.

`evaluate` recurses on the number of further levels allowed. `splice` and `resolve` know
nothing of levels; they are handed the function that evaluates what a marker yields.
-/

namespace Regen

/-- What stays the same throughout a generation. -/
structure Run where
  /-- Renders a header with the values at hand. -/
  render : Text → Except TemplateError Text
  /-- The settings. -/
  settings : Settings
  /-- Whether markers are left out of the output. -/
  removeMarkers : Bool
  /-- Bodies that go before those of all edits, by name. -/
  overrides : List (Text × Text)

/-- The step of a trail that stands for resolving a marker. -/
def Frame.ofMarker (source : Text) (m : Marker) : Frame :=
  let place := m.place source
  { action := match m.family with
      | .generation => .generation
      | .edit => .reinsertion
    marker := m.tokens.quote (m.header.abbreviate 50)
    line := place.line
    column := place.column }

namespace Run

/-- Asks for the edit that a marker names. It can be asked for once. -/
def claim (run : Run) (source : Text) (pool : Pool) (m : Marker) : Claiming (Option Text) := do
  let claimed ← get
  if m.name ∈ claimed then failAt (.repeatedEdit m.quoted) (m.place source)
  else
    set (m.name :: claimed)
    return run.overrides.lookup m.name <|> pool.content m.name

/-- What a marker yields before it is evaluated. An empty header yields nothing, and neither does
an edit without a body. -/
def yielded (run : Run) (source : Text) (pool : Pool) (m : Marker) : Claiming (Option Text) :=
  match m.family with
  | .edit => run.claim source pool m
  | .generation =>
    if m.headerEmpty then return none
    else
      match run.render m.header with
      | .ok t => return some t
      | .error e => throw (Failure.within { cause := .template e } (.ofMarker source m))

/-- A text without the line feed at its end, if it has one. -/
def dropFinalNewline (t : Text) : Text :=
  if t.getLast? = some Text.newline then t.dropLast else t

/-- Evaluates what came of a marker: `evaluate source m pool t` reads `t` and regenerates it. -/
abbrev Evaluator := (source : Text) → Marker → Pool → Text → Claiming Text

/-- The new content of a block, or nothing. -/
def resolve (run : Run) (evaluate : Evaluator) (source : Text) (pool : Pool) (m : Marker) :
    Claiming (Option Text) := do
  match ← run.yielded source pool m with
  | none => return none
  | some t =>
    if t.isEmpty then return some []
    else
      let evaluated ← tryCatch (evaluate source m pool t) fun e =>
        throw (e.within (.ofMarker source m))
      let content := dropFinalNewline evaluated
      return if run.removeMarkers && content.isEmpty then none else some content

/-- What stands between the spans of a block with this content. -/
def fill (run : Run) (source : Text) (b : Block) (content? : Option Text) : Outcome Text :=
  if b.isInline then
    let content := content?.getD []
    if Text.newline ∈ content then failAt .bodyMustBeInline (b.opening.place source)
    else if run.removeMarkers then .ok content
    else .ok ([Text.space] ++ content ++ [Text.space])
  else
    match content? with
    | none => .ok []
    | some content => .ok (Text.indent b.opening.bodyIndent content ++ [Text.newline])

/-- What is written for a span of a marker. -/
def kept (run : Run) (source : Text) (s : Span) : Text :=
  if run.removeMarkers then [] else s.of source

/-- The rest of a text, from an offset on, with the bodies of these blocks filled anew. -/
def splice (run : Run) (source : Text) (resolve : Marker → Claiming (Option Text)) :
    (offset : Nat) → List Block → Claiming Text
  | offset, [] => return source.drop offset
  | offset, b :: rest => do
    let content? ← resolve b.opening
    let body ← run.fill source b content?
    let after ← splice run source resolve b.endSpan.stop rest
    return source.extract offset b.openSpan.start ++ run.kept source b.openSpan ++ body
      ++ run.kept source b.endSpan ++ after

/-- Regenerates the outermost blocks of a document. -/
def directive (run : Run) (evaluate : Evaluator) (pool : Pool) (d : Document) : Claiming Text :=
  run.splice d.source (run.resolve evaluate d.source pool) 0 d.outermost

/-- Reads a text and regenerates its blocks, with `levels` further levels allowed beneath the one
of the marker it came from. -/
def evaluate (run : Run) : (levels : Nat) → Evaluator
  | 0, source, m, _, _ => failAt (.tooDeeplyNested run.settings.maxDepth) (m.place source)
  | levels + 1, _, _, pool, t => do
    let d ← Document.parse run.settings t
    run.directive (evaluate run levels) (pool.beneath d.edits) d

/-- Regenerates the blocks of a text that no marker produced. -/
def outermost (run : Run) (pool : Pool) (d : Document) : Claiming Text :=
  run.directive (run.evaluate run.settings.maxDepth) pool d

end Run

end Regen
