import Regen.Marker.Header
import Regen.Text.Search

/-!
# Finding the markers of a text

Markers of a family are found from left to right: an opener, then the first closer after it,
then on from there. Generation markers are looked for in the whole text, edit markers in the
gaps between the generation markers, so that an edit marker written inside a generation header
belongs to the generated text and not to this one.
-/

namespace Regen.Marker

/-- The marker whose opener and closer stand at these offsets. -/
def read (t : Text) (family : Family) (tokens : Tokens) (openAt closeAt : Nat) :
    Outcome Marker :=
  let bare : Marker :=
    { family, tokens, openAt
      lead := t.extract (Text.lineStart t openAt) openAt
      closeEnd := closeAt + tokens.closer.length
      headerLines := [] }
  match readHeader t bare closeAt with
  | .ok headerLines => .ok { bare with headerLines }
  | .error (problem, offset) =>
    failAt problem (Location.ofOffset t offset tokens.opener.length)

/-- The markers of a family that lie inside the stretch from `start` to `stop`. Every marker
takes up at least one byte, so `steps` need not exceed the length of the stretch by more than
one. -/
def scanFrom (t : Text) (family : Family) (tokens : Tokens) (stop : Nat) :
    (steps start : Nat) → Outcome (List Marker)
  | 0, _ => .ok []
  | steps + 1, start =>
    match Text.findIn? tokens.opener t start stop with
    | none => .ok []
    | some openAt =>
      match Text.findIn? tokens.closer t (openAt + tokens.opener.length) stop with
      | none =>
        failAt (.unclosedMarker tokens.closer)
          (Location.ofOffset t openAt tokens.opener.length)
      | some closeAt => do
        let m ← read t family tokens openAt closeAt
        let rest ← scanFrom t family tokens stop steps m.closeEnd
        return m :: rest

/-- The markers of a family that lie inside the stretch from `start` to `stop`. -/
def scan (t : Text) (family : Family) (tokens : Tokens) (start stop : Nat) :
    Outcome (List Marker) :=
  scanFrom t family tokens stop (stop - start + 1) start

/-- Puts the edit markers found in the gaps between `markers` in their places among them. The
first gap starts at `start`. -/
def scanGaps (t : Text) (tokens : Tokens) : (start : Nat) → List Marker → Outcome (List Marker)
  | start, [] => scan t .edit tokens start t.length
  | start, m :: rest => do
    let before ← scan t .edit tokens start m.openAt
    let after ← scanGaps t tokens m.closeEnd rest
    return before ++ m :: after

/-- All markers of a text in the order of their openers. -/
def scanAll (t : Text) (settings : Settings) : Outcome (List Marker) := do
  let generation ← scan t .generation settings.generation 0 t.length
  scanGaps t settings.edit 0 generation

end Regen.Marker
