import Regen.Proofs.Failing

/-!
# How deeply texts may be nested

The limit on nesting is there to stop texts that reproduce themselves. It is to decide whether a generation
comes to an end, and nothing else: a generation that is not stopped by one limit must give the same under
every higher one. This holds of results of every kind, so it is a relation between results
(`Outcome.Foretells`), which is kept by doing one thing after the other and by adding to a trail. A text that
is evaluated asks for the limit in one place only, when no level is left, and there the result is not decided.
Everything else is done alike under both limits, so the relation goes through by induction on the levels that
are left (`Run.evaluate_foretells`). In particular a failure that is not for the nesting comes with
the same trail.
-/

namespace Regen

variable {α β : Type}

/-- **A result foretells another one** if it is the same, or says no more than that a text was nested too
deeply. -/
def Outcome.Foretells (x x' : Outcome α) : Prop := (∃ e, x = .error e ∧ e.tooDeep = true) ∨ x = x'

namespace Outcome.Foretells

/-- A result foretells itself. -/
theorem refl (x : Outcome α) : Foretells x x := .inr rfl

/-- Results that are foretold can be gone on with. -/
theorem bind {x x' : Outcome α} {f f' : α → Outcome β} (h : Foretells x x')
    (hf : ∀ a, Foretells (f a) (f' a)) : Foretells (x >>= f) (x' >>= f') := by
  obtain ⟨e, rfl, he⟩ | rfl := h
  · exact .inl ⟨e, rfl, he⟩
  · cases x with
    | error e => exact .inr rfl
    | ok a => exact hf a

/-- A step that is added to the trail makes no difference. -/
theorem within {x x' : Outcome α} (h : Foretells x x') (frame : Frame) :
    Foretells (x.mapError (·.within frame)) (x'.mapError (·.within frame)) := by
  obtain ⟨e, rfl, he⟩ | rfl := h
  · exact .inl ⟨e.within frame, rfl, he⟩
  · exact .inr rfl

/-- **What is decided stays as it is.** -/
theorem eq {x x' : Outcome α} (h : Foretells x x') (hx : ∀ e, x = .error e → e.tooDeep = false) :
    x' = x := by
  obtain ⟨e, rfl, he⟩ | rfl := h
  · exact absurd ((hx e rfl).symm.trans he) Bool.false_ne_true
  · rfl

end Outcome.Foretells

/-- A claiming computation foretells another one if it does from all names on. -/
def Claiming.Foretells (x x' : Claiming α) : Prop := ∀ c, Outcome.Foretells (x.run c) (x'.run c)

namespace Claiming.Foretells

/-- A computation foretells itself. -/
theorem refl (x : Claiming α) : Foretells x x := fun _ => .refl _

/-- Computations that are foretold can be gone on with. -/
theorem bind {x x' : Claiming α} {f f' : α → Claiming β} (h : Foretells x x')
    (hf : ∀ a, Foretells (f a) (f' a)) : Foretells (x >>= f) (x' >>= f') := fun c => by
  rw [StateT.run_bind, StateT.run_bind]
  exact (h c).bind fun p => hf p.1 p.2

/-- A step that is added to the trail makes no difference. -/
theorem within {x x' : Claiming α} (h : Foretells x x') (frame : Frame) :
    Foretells (tryCatch x fun e => throw (e.within frame)) (tryCatch x' fun e => throw (e.within frame)) :=
  fun c => by
    rw [run_within, run_within]
    exact (h c).within frame

end Claiming.Foretells

namespace Run

/-- The run with another limit. -/
def limited (run : Run) (n : Nat) : Run := { run with settings := { run.settings with maxDepth := n } }

variable {run : Run} {n n' : Nat}

/-- Blocks are regenerated alike under another limit if what their markers are resolved to is foretold. -/
theorem splice_foretells {resolve resolve' : Marker → Claiming (Option Text)}
    (h : ∀ m, Claiming.Foretells (resolve m) (resolve' m)) (source : Text) (offset : Nat)
    (bs : List Block) :
    Claiming.Foretells ((run.limited n).splice source resolve offset bs)
      ((run.limited n').splice source resolve' offset bs) := by
  induction bs generalizing offset with
  | nil => exact .refl _
  | cons b bs ih =>
    exact (h b.opening).bind fun content? => (Claiming.Foretells.refl _).bind fun body =>
      (ih b.endSpan.stop).bind fun after => .refl _

/-- A marker is resolved alike under another limit if the evaluation of what it yields is foretold. -/
theorem resolve_foretells {evaluate evaluate' : Evaluator} {source : Text} {pool : Pool}
    (h : ∀ m t, Claiming.Foretells (evaluate source m pool t) (evaluate' source m pool t)) (m : Marker) :
    Claiming.Foretells ((run.limited n).resolve evaluate source pool m)
      ((run.limited n').resolve evaluate' source pool m) := by
  refine (Claiming.Foretells.refl _).bind fun u? => ?_
  cases u? with
  | none => exact .refl _
  | some u =>
    dsimp only
    split
    · exact .refl _
    · exact ((h m u).within _).bind fun r => .refl _

/-- **A text with more levels left is evaluated to the same**, unless it is nested too deeply with the fewer
ones. -/
theorem evaluate_foretells {levels levels' : Nat} (hle : levels ≤ levels') (source : Text) (m : Marker)
    (pool : Pool) (t : Text) :
    Claiming.Foretells ((run.limited n).evaluate levels source m pool t)
      ((run.limited n').evaluate levels' source m pool t) := by
  induction levels generalizing levels' source m pool t with
  | zero => exact fun c => .inl ⟨_, rfl, rfl⟩
  | succ levels ih =>
    obtain _ | levels' := levels'
    · exact absurd hle (Nat.not_succ_le_zero levels)
    -- the text is read alike, since the limit has no part in it
    · refine Claiming.Foretells.bind (.refl (liftM (Document.parse run.settings t))) fun d => ?_
      exact splice_foretells (resolve_foretells fun m u => ih (Nat.le_of_succ_le_succ hle) _ m _ u) _ _ _

/-- **The text at the top is regenerated alike under a higher limit.** -/
theorem outermost_foretells (hle : n ≤ n') (pool : Pool) (d : Document) :
    Claiming.Foretells ((run.limited n).outermost pool d) ((run.limited n').outermost pool d) :=
  splice_foretells (resolve_foretells fun m u => evaluate_foretells hle _ m _ u) _ _ _

/-- A generation is complete alike if it is foretold. -/
theorem complete_foretells {x x' : Claiming Text} (h : Claiming.Foretells x x') (edits : Edits) :
    Outcome.Foretells (complete edits x) (complete edits x') :=
  (h []).bind fun _ => .refl _

end Run

namespace Document

/-- **A higher limit changes nothing that is decided.** Take any generation in either mode that succeeds, or
fails for another reason than that a text is nested too deeply. With any higher limit it comes to the same,
be it the output, or the error with its trail. -/
theorem generate_of_le {renderer : Renderer} {context : Context} {s : Settings} {mode : Mode}
    {removeMarkers : Bool} {d : Document} {supplied : Supplied} {n n' : Nat} (hle : n ≤ n')
    {r : Outcome Text}
    (hr : generate renderer context { s with maxDepth := n } mode removeMarkers d supplied = r)
    (hdecided : ∀ e, r = .error e → e.tooDeep = false) :
    generate renderer context { s with maxDepth := n' } mode removeMarkers d supplied = r := by
  subst hr
  refine Outcome.Foretells.eq ?_ hdecided
  let run : Run := { render := (renderer · context), settings := s, removeMarkers,
                     overrides := supplied.overrides }
  cases mode with
  | directive => exact Run.complete_foretells (run.outermost_foretells hle _ d) _
  | document =>
    refine Outcome.Foretells.bind (.refl (run.renderedDocument d)) fun rendered =>
      Run.complete_foretells ?_ _
    split
    · exact .refl _
    · exact Claiming.Foretells.bind (.refl (liftM (parse s rendered))) fun top =>
        run.outermost_foretells hle _ top

/-- A document of a generation block with a header in it. -/
def single : Document :=
  ((parse .standard "[[[ a ]]] [[[ end ]]]").toOption).getD { source := [], marks := [], edits := [] }

/-- One text in another is enough for a header that is rendered to plain text, so more are no different. -/
theorem generate_of_le_single :
    1 ≤ 7 ∧
      generate (fun _ _ => .ok "b") [] { Settings.standard with maxDepth := 1 } .directive false single {}
        = .ok "[[[ a ]]] b [[[ end ]]]" ∧
      generate (fun _ _ => .ok "b") [] { Settings.standard with maxDepth := 7 } .directive false single {}
        = .ok "[[[ a ]]] b [[[ end ]]]" := by
  have hr : generate (fun _ _ => .ok "b") [] { Settings.standard with maxDepth := 1 } .directive false
      single {} = .ok "[[[ a ]]] b [[[ end ]]]" := by rfl
  exact ⟨by decide, hr, generate_of_le (by decide) hr nofun⟩

end Document

end Regen
