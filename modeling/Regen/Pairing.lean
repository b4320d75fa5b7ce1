import Regen.Block

/-!
# Pairing markers

Open markers are paired with end markers as brackets are, in one pass over the markers from left
to right. The pass also keeps the layout in order. Inside a block either all markers follow one
another on one line or no two of them share one. After a block of whole lines the next marker
starts a new line; after a block on one line, if the next marker is on that line too, so is the
one that follows.

Each rule is a function of its own, and a step of the pass applies them in turn. Every problem is
found at the marker of its step, except that a block is left open, which shows only at the end.
-/

namespace Regen

/-- One of the two markers of a block. -/
inductive Mark where
  /-- The open marker of a block. -/
  | opening (block : Block)
  /-- The end marker of a block. -/
  | ending (block : Block)
  deriving DecidableEq

namespace Mark

/-- The block a mark belongs to. -/
def block : Mark → Block
  | opening b | ending b => b

/-- The marker itself. -/
def marker : Mark → Marker
  | opening b => b.opening
  | ending b => b.ending

/-- What is written back for the marker. -/
def span : Mark → Span
  | opening b => b.openSpan
  | ending b => b.endSpan

/-- The block, if this is where it opens. -/
def opened? : Mark → Option Block
  | opening b => some b
  | ending _ => none

end Mark

/-- What an ended block asks of the markers after it. -/
inductive LineRule where
  /-- Nothing. -/
  | free
  /-- A block on one line has just ended, and the next marker decides. -/
  | undecided
  /-- The next marker is on a new line. -/
  | newLine
  /-- The next marker is on the same line. -/
  | sameLine
  deriving DecidableEq, Repr

/-- The rule after a marker that is or is not on the line of the one before. -/
def LineRule.next : LineRule → (sameLine : Bool) → Except Problem LineRule
  | .free, _ => .ok .free
  | .undecided, false => .ok .free
  | .undecided, true => .ok .sameLine
  | .newLine, false => .ok .free
  | .newLine, true => .error .newlineRequired
  | .sameLine, true => .ok .free
  | .sameLine, false => .error .sameLineRequired

/-- What is known of the layout inside a block after one more marker. `none` is not known yet,
`some true` on one line, `some false` on lines of their own. -/
def settleLayout : (known? : Option Bool) → (sameLine : Bool) → Except Problem (Option Bool)
  | none, sameLine => .ok (some sameLine)
  | some false, true => .error .newlineRequired
  | some true, false => .error .sameLineRequired
  | known?, _ => .ok known?

/-- A block whose end marker has not been met. -/
structure OpenBlock where
  /-- The marker that opened it. -/
  marker : Marker
  /-- The layout inside it, as `settleLayout` knows it. -/
  layout? : Option Bool
  /-- The marks of the blocks inside it, in order. -/
  inner : List Mark

/-- How far the pass has come. -/
structure Pairing where
  /-- The open blocks, innermost first. -/
  stack : List OpenBlock := []
  /-- The marks of the outermost blocks that have ended and of all inside them, in order. -/
  closed : List Mark := []
  /-- The marker met last. -/
  previous? : Option Marker := none
  /-- What the block that ended last asks for. -/
  rule : LineRule := .free

namespace Pairing

/-- Whether an open marker is followed at once by an end marker of the other family. -/
def clashes (previous? : Option Marker) (m : Marker) : Bool :=
  match previous? with
  | some p => !p.isEnd && m.isEnd && p.family != m.family
  | none => false

/-- Whether an open marker would put an edit directly inside an edit. -/
def nestsEdits (stack : List OpenBlock) (m : Marker) : Bool :=
  match stack with
  | top :: _ => !m.isEnd && m.family == .edit && top.marker.family == .edit
  | [] => false

/-- Whether no line ends between two markers. -/
def onSameLine (t : Text) (previous m : Marker) : Bool :=
  Text.newline ∉ t.extract previous.closeEnd m.openAt

/-- Notes in the innermost open block whether a marker is on the line of the one before. -/
def noteLayout (sameLine : Bool) : List OpenBlock → Except Problem (List OpenBlock)
  | [] => .ok []
  | top :: rest => do
    let layout? ← settleLayout top.layout? sameLine
    return { top with layout? } :: rest

/-- Follows the layout rules from the previous marker to this one. -/
def advance (t : Text) (s : Pairing) (m : Marker) : Except Problem Pairing :=
  match s.previous? with
  | none => .ok { s with previous? := some m }
  | some p => do
    let sameLine := onSameLine t p m
    let rule ← s.rule.next sameLine
    let stack ← noteLayout sameLine s.stack
    return { s with stack, rule, previous? := some m }

/-- Opens a block. Inside a block on one line it is itself on one line. -/
def push (s : Pairing) (m : Marker) : Pairing :=
  let layout? := match s.stack with
    | top :: _ => if top.layout? = some true then some true else none
    | [] => none
  { s with stack := ⟨m, layout?, []⟩ :: s.stack }

/-- Adds marks after all that have ended inside the innermost of these open blocks. -/
def append (marks : List Mark) (stack : List OpenBlock) (closed : List Mark) :
    List OpenBlock × List Mark :=
  match stack with
  | [] => ([], closed ++ marks)
  | top :: rest => ({ top with inner := top.inner ++ marks } :: rest, closed)

/-- Ends the innermost open block. -/
def pop (t : Text) (s : Pairing) (m : Marker) : Except Problem Pairing :=
  match s.stack with
  | [] => .error (.strayEnd (m.tokens.opener ++ [Text.space] ++ m.tokens.closer))
  | top :: outer =>
    let isInline := top.layout? == some true
    let block := Block.ofMarkers t top.marker m s.stack.length isInline
    let marks := .opening block :: (top.inner ++ [.ending block])
    let (stack, closed) := append marks outer s.closed
    .ok { s with stack, closed, rule := if isInline then .undecided else .newLine }

/-- Meets one marker. -/
def step (t : Text) (s : Pairing) (m : Marker) : Except Problem Pairing := do
  if clashes s.previous? m then .error .wrongInclusion
  else if nestsEdits s.stack m then .error (.directlyEnclosedEdit m.quoted m.quotedEnd)
  else
    let s ← advance t s m
    if m.isEnd then s.pop t m else return s.push m

/-- Meets all markers. -/
def run (t : Text) : Pairing → List Marker → Outcome Pairing
  | s, [] => .ok s
  | s, m :: rest =>
    match step t s m with
    | .ok s => run t s rest
    | .error problem => failAt problem (m.place t)

end Pairing

/-- The marks of a text with these markers, in order. A block left open is reported at the closer
of its open marker. -/
def pairMarkers (t : Text) (markers : List Marker) : Outcome (List Mark) := do
  let s ← Pairing.run t {} markers
  match s.stack with
  | [] => return s.closed
  | top :: _ =>
    let width := top.marker.tokens.closer.length
    failAt (.unendedBlock top.marker.quotedEnd)
      (Location.ofOffset t (top.marker.closeEnd - width) width)

end Regen
