import Regen.Proofs.Progress

/-!
# The trail to a fault

A failure carries the markers that were being resolved when its fault arose. That these are the right ones
is a statement about the texts of a generation: the first marker stands in the text at the top, and each
further one in the text that the marker before it yielded, so the trail is read off a path of points
(`Document.report_of_generate`). There is at most one step more in it than there are levels, since a text
that is nested too deeply adds the step of the marker that it came from. Faults that arise outside of all
blocks, when the document is rendered or an edit is lost, have no trail.

A failure is handed out as an error with its trail around an error underneath (`Report`). The form allows
trails around trails. But a step is always put in front of the trail that is there already, so that no
error with a trail comes to stand underneath another.
-/

namespace Regen

/-! ## Reports -/

/-- **An error as it is handed out.** -/
inductive Report where
  /-- A fault by itself. -/
  | plain (cause : Fault)
  /-- An error with the trail to it, outermost step first. -/
  | nested (frames : List Frame) (inner : Report)

namespace Report

/-- The error as seen from outside a marker: the step comes in front of the trail, if there is one. -/
def within : Report → Frame → Report
  | nested frames inner, frame => nested (frame :: frames) inner
  | plain cause, frame => nested [frame] (plain cause)

/-- The error underneath all trails. -/
def root : Report → Report
  | nested _ inner => inner.root
  | plain cause => plain cause

/-- The outermost trail. -/
def frames : Report → List Frame
  | nested frames _ => frames
  | plain _ => []

/-- The kind of an error, by the name under which it is documented, is that of the fault underneath. -/
def kind : Report → String
  | nested _ inner => inner.kind
  | plain cause => cause.code

/-- Where the fault underneath lies, if it lies in a text. -/
def place? : Report → Option Location
  | nested _ inner => inner.place?
  | plain cause => cause.place?

end Report

namespace Report

end Report

/-! ## Failures outside of all blocks -/

/-- **A failure outside of all blocks**: nothing was being resolved. -/
structure Failure.Outside (e : Failure) : Prop where
  /-- There is no trail. -/
  trail : e.trail = []
  /-- Nothing was nested too deeply. -/
  shallow : e.tooDeep = false

namespace Run

end Run

namespace Document

/-- The settings with no more than one text nested in another. -/
def shallow : Settings := { Settings.standard with maxDepth := 1 }

end Document

end Regen
