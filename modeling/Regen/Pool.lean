import Regen.Document

/-!
# The edits at hand

While text is generated, the bodies of edits come from the texts being evaluated, one layer for
each. A text that was generated comes beneath the text whose marker produced it, and the outermost
layer that has an edit decides, even if the edit has no body there. An edit can be asked for
once; the names asked for so far are the state of a generation.
-/

namespace Regen

/-- The edits of the texts being evaluated, those of the outermost text first. -/
abbrev Pool := List Edits

namespace Pool

/-- The edit of a name in the outermost text that has it. -/
def find? (pool : Pool) (name : Text) : Option EditBlock := pool.findSome? (·.get? name)

/-- The body of the edit of a name in the outermost text that has it. -/
def content (pool : Pool) (name : Text) : Option Text := (pool.find? name).bind (·.content)

/-- The pool with the edits of a generated text beneath all others. -/
def beneath (pool : Pool) (own : Edits) : Pool := pool ++ [own]

end Pool

/-- A computation that may fail and keeps the names of the edits that have been asked for. -/
abbrev Claiming := StateT (List Text) Outcome

namespace Edits

/-- The edit whose name comes first in the order of its bytes. -/
def first? (edits : Edits) : Option EditBlock :=
  edits.foldl (fun best? e =>
    match best? with
    | some best => if e.name < best.name then some e else some best
    | none => some e) none

/-- Checks that every edit has been asked for or may be lost. -/
def checkClaimed (edits : Edits) (claimed : List Text) : Outcome Unit :=
  match first? (edits.filter fun e => !e.mayBeLost && e.name ∉ claimed) with
  | some e => failAt (.lostEdit e.block.opening.quoted) (e.block.opening.place e.source)
  | none => .ok ()

end Edits

end Regen
