import Regen.Proofs.Resolution

/-!
# The two modes of a generation

In directive mode the blocks of a document are regenerated. In document mode the document is rendered as
a whole, and the blocks of what comes of that are. So a generation in either mode regenerates the blocks
of one text at the top, with some edits at hand (`Run.Starts`), and then sees to it that no edit at hand was
lost (`Run.generate_eq_ok_iff`).
-/

namespace Regen

namespace Run

/-- **The edits that a generation must not lose.** Edits of an earlier output take the place of those of the
document. In document mode the edits outside of generation blocks are part of the text that is rendered. -/
def atHand (mode : Mode) (d : Document) (recovered : Edits) : Edits :=
  match mode with
  | .directive => d.edits.union recovered
  | .document => Edits.union (d.edits.filter (·.name ∉ (Holding.ofDocument d).freed)) recovered

/-- Edits of an earlier output are at hand in either mode. -/
theorem subset_atHand (mode : Mode) (d : Document) (recovered : Edits) :
    recovered ⊆ atHand mode d recovered := by
  cases mode <;> exact List.subset_append_right _ _

/-- **The text at the top of a generation**, and where the bodies of its edits come from: the document
itself, or what it is rendered to, whose edits come beneath those at hand. -/
inductive Starts (run : Run) (d : Document) (recovered : Edits) : Mode → Document → Pool → Prop
  /-- In directive mode the document is regenerated. -/
  | directive : Starts run d recovered .directive d [atHand .directive d recovered]
  /-- In document mode the rendered text is read, and is regenerated. -/
  | document {rendered : Text} {top : Document} (hrendered : run.renderedDocument d = .ok rendered)
      (htop : Document.parse run.settings rendered = .ok top) :
      Starts run d recovered .document top (Pool.beneath [atHand .document d recovered] top.edits)

/-- A generation that begins by reading a text is complete if the text is read and what follows is. -/
theorem complete_lift_bind {α : Type} (edits : Edits) (x : Outcome α) (f : α → Claiming Text) :
    complete edits (liftM x >>= f) = x >>= fun a => complete edits (f a) := by
  cases x <;> rfl

/-- **Document mode**: the text that the document is rendered to is read and regenerated, and no edit at
hand is lost. That the empty text is not even read makes no difference. -/
theorem documentMode_eq {run : Run} (hs : Document.Usable run.settings) (d : Document)
    (recovered : Edits) :
    run.documentMode d recovered = run.renderedDocument d >>= fun rendered =>
      Document.parse run.settings rendered >>= fun top =>
        complete (atHand .document d recovered)
          (run.outermost (Pool.beneath [atHand .document d recovered] top.edits) top) := by
  rw [documentMode]
  refine congrArg (run.renderedDocument d >>= ·) (funext fun rendered => ?_)
  rw [← complete_lift_bind]
  refine congrArg (complete _) ?_
  split
  · rename_i hempty
    have hplain : Text.Plain run.settings [] := fun _ => trivial
    rw [List.isEmpty_iff.1 hempty, parse_of_plain hs hplain]
    rfl
  · rfl

/-- **What a generation comes to** in either mode: the text at the top is regenerated, and no edit at hand
is lost. -/
theorem generate_eq_ok_iff {renderer : Renderer} {context : Context} {s : Settings} {mode : Mode}
    {removeMarkers : Bool} {d : Document} {supplied : Supplied} {o : Text} (hs : Document.Usable s) :
    generate renderer context s mode removeMarkers d supplied = .ok o ↔
      (let run := ofRenderer renderer context s removeMarkers supplied.overrides
      ∃ top pool claimed, run.Starts d supplied.recovered mode top pool ∧
        (run.outermost pool top).run [] = .ok (o, claimed) ∧
        (atHand mode d supplied.recovered).checkClaimed claimed = .ok ()) := by
  cases mode with
  | directive =>
    refine Document.generate_directive_eq_ok_iff.trans ⟨?_, ?_⟩
    · rintro ⟨claimed, hrun, hcheck⟩
      exact ⟨d, _, claimed, .directive, hrun, hcheck⟩
    · rintro ⟨_, _, claimed, ⟨⟩, hrun, hcheck⟩
      exact ⟨claimed, hrun, hcheck⟩
  | document =>
    show (ofRenderer renderer context s removeMarkers supplied.overrides).documentMode d
      supplied.recovered = .ok o ↔ _
    rw [documentMode_eq hs, bind_eq_ok_iff]
    constructor
    · rintro ⟨rendered, hrendered, h⟩
      obtain ⟨top, htop, h⟩ := bind_eq_ok_iff.1 h
      obtain ⟨claimed, hrun, hcheck⟩ := complete_eq_ok_iff.1 h
      exact ⟨top, _, claimed, .document hrendered htop, hrun, hcheck⟩
    · rintro ⟨top, _, claimed, hstarts, hrun, hcheck⟩
      cases hstarts with
      | document hrendered htop =>
        exact ⟨_, hrendered, bind_eq_ok_iff.2 ⟨top, htop, complete_eq_ok_iff.2 ⟨claimed, hrun, hcheck⟩⟩⟩

end Run

end Regen
