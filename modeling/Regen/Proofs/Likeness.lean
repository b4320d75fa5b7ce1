import Regen.Proofs.Agreement
import Regen.Proofs.Failing

/-!
# Generations that are alike

Two generations may come to the same although they are about different texts. The outputs are the same then,
but errors are not: they tell where a marker stands. So results are alike if they are the same output, or
two errors whose faults are of the same kind (`Outcome.Alike`). That is kept by doing one thing after the
other, and by adding to a trail, whatever the steps that are added.

Markers that read alike yield alike if the pools are similar. What they yield is read as a text of its own,
which has no part in the difference, and is regenerated to the very same. So the blocks of two texts are
regenerated alike if they are twins, and what stands around them is the same in both texts (`Run.Twins`).
-/

namespace Regen

variable {α β : Type}

/-- **Results are alike** if they are the same, or fail with faults of the same kind. -/
inductive Outcome.Alike : Outcome α → Outcome α → Prop
  /-- The same answer. -/
  | ok (a : α) : Alike (.ok a) (.ok a)
  /-- Faults of the same kind. -/
  | error {e e' : Failure} (h : e'.cause.code = e.cause.code) : Alike (.error e) (.error e')

namespace Outcome.Alike

/-- Alike results are the same answer, or two faults of one kind. -/
theorem ok_or_error {x x' : Outcome α} (h : Alike x x') :
    (∃ a, x = .ok a ∧ x' = .ok a) ∨
      ∃ e e', x = .error e ∧ x' = .error e' ∧ e'.cause.code = e.cause.code := by
  cases h with
  | ok a => exact .inl ⟨a, rfl, rfl⟩
  | error h => exact .inr ⟨_, _, rfl, rfl, h⟩

/-- A result is like itself. -/
theorem refl (x : Outcome α) : Alike x x := by
  cases x with
  | ok a => exact .ok a
  | error e => exact .error rfl

/-- Alike results can be gone on with. -/
theorem bind {x x' : Outcome α} {f f' : α → Outcome β} (h : Alike x x') (hf : ∀ a, Alike (f a) (f' a)) :
    Alike (x >>= f) (x' >>= f') := by
  cases h with
  | ok a => exact hf a
  | error h => exact .error h

/-- Steps that are added to the trails make no difference. -/
theorem within {x x' : Outcome α} (h : Alike x x') (frame frame' : Frame) :
    Alike (x.mapError (·.within frame)) (x'.mapError (·.within frame')) := by
  cases h with
  | ok a => exact .ok a
  | error h => exact .error h

end Outcome.Alike

/-- Claiming computations are alike if they are from all names on. -/
def Claiming.Alike (x x' : Claiming α) : Prop := ∀ c, Outcome.Alike (x.run c) (x'.run c)

namespace Claiming.Alike

/-- A computation is like itself. -/
theorem refl (x : Claiming α) : Alike x x := fun _ => .refl _

/-- Alike computations can be gone on with. -/
theorem bind {x x' : Claiming α} {f f' : α → Claiming β} (h : Alike x x') (hf : ∀ a, Alike (f a) (f' a)) :
    Alike (x >>= f) (x' >>= f') := fun c => by
  rw [StateT.run_bind, StateT.run_bind]
  exact (h c).bind fun p => hf p.1 p.2

/-- A computation that claims nothing is alike by itself. -/
theorem lift {x x' : Outcome α} (h : Outcome.Alike x x') :
    Alike (liftM x : Claiming α) (liftM x' : Claiming α) := fun _ => h.bind fun _ => .refl _

/-- Steps that are added to the trails make no difference. -/
theorem within {x x' : Claiming α} (h : Alike x x') (frame frame' : Frame) :
    Alike (tryCatch x fun e => throw (e.within frame)) (tryCatch x' fun e => throw (e.within frame')) :=
  fun c => by
    rw [run_within, run_within]
    exact (h c).within frame frame'

end Claiming.Alike

namespace Run

variable {run : Run} {source source' : Text} {pool pool' : Pool}

/-! ## Markers -/

/-- **Alike markers yield alike.** -/
theorem yielded_alike {m m' : Marker} (hm : m.Alike m') (hpool : pool.Similar pool') :
    Claiming.Alike (run.yielded source pool m) (run.yielded source' pool' m') := by
  rw [yielded, yielded, hm.family]
  cases m.family with
  | edit =>
    rw [claim, claim, hm.name, hpool.content]
    refine (Claiming.Alike.refl _).bind fun claimed => ?_
    split
    · exact fun c => .error rfl
    · exact .refl _
  | generation =>
    dsimp only
    rw [hm.headerEmpty, hm.header]
    split
    · exact .refl _
    · cases run.render m.header with
      | ok t => exact .refl _
      | error e => exact fun c => .error rfl

/-- **A text is evaluated alike wherever it comes from.** Unless no level is left it is even evaluated to
the same, with the same error. -/
theorem evaluate_alike (hpool : pool.Similar pool') (levels : Nat) (m m' : Marker) (t : Text) :
    Claiming.Alike (run.evaluate levels source m pool t) (run.evaluate levels source' m' pool' t) := by
  cases levels with
  | zero => exact fun c => .error rfl
  | succ levels =>
    rw [evaluate_congr hpool m t]
    exact .refl _

/-- **Alike markers are resolved alike.** -/
theorem resolve_alike {m m' : Marker} (hm : m.Alike m') (hpool : pool.Similar pool') (levels : Nat) :
    Claiming.Alike (run.resolve (run.evaluate levels) source pool m)
      (run.resolve (run.evaluate levels) source' pool' m') := by
  refine (yielded_alike hm hpool).bind fun u? => ?_
  cases u? with
  | none => exact .refl _
  | some u =>
    dsimp only
    split
    · exact .refl _
    · exact ((evaluate_alike hpool levels m m' u).within _ _).bind fun r => .refl _

/-! ## Blocks -/

/-- **Twins**: blocks of two texts whose markers read alike, with the same lead, and for which the same is
written back. -/
structure Twin (source source' : Text) (b b' : Block) : Prop where
  /-- The open markers are alike. -/
  opening : b.opening.Alike b'.opening
  /-- They have the same lead. -/
  lead : b'.opening.lead = b.opening.lead
  /-- The blocks are laid out alike. -/
  isInline : b'.isInline = b.isInline
  /-- The same is written back with the open markers. -/
  openText : b'.openSpan.of source' = b.openSpan.of source
  /-- The same is written back with the end markers. -/
  endText : b'.endSpan.of source' = b.endSpan.of source

/-- **Texts whose blocks are twins**, from some offsets on, with the same between them. -/
inductive Twins (source source' : Text) : (offset offset' : Nat) → List Block → List Block → Prop
  /-- No blocks. -/
  | nil {offset offset' : Nat} (hrest : source'.drop offset' = source.drop offset) :
      Twins source source' offset offset' [] []
  /-- A block and those behind it. -/
  | cons {offset offset' : Nat} {b b' : Block} {bs bs' : List Block}
      (hgap : source'.extract offset' b'.openSpan.start = source.extract offset b.openSpan.start)
      (htwin : Twin source source' b b')
      (hrest : Twins source source' b.endSpan.stop b'.endSpan.stop bs bs') :
      Twins source source' offset offset' (b :: bs) (b' :: bs')

/-- Twins are filled alike. -/
theorem fill_alike {b b' : Block} (h : Twin source source' b b') (content? : Option Text) :
    Outcome.Alike (run.fill source b content?) (run.fill source' b' content?) := by
  unfold fill
  rw [h.isInline, h.opening.bodyIndent h.lead]
  split
  · dsimp only
    split
    · exact .error rfl
    · exact .refl _
  · exact .refl _

/-- For twins the same is kept. -/
theorem kept_eq {span span' : Span} (h : span'.of source' = span.of source) :
    run.kept source' span' = run.kept source span := by
  rw [kept, kept, h]

/-- **Twins are regenerated alike**, if their markers are resolved alike. -/
theorem splice_alike {resolve resolve' : Marker → Claiming (Option Text)}
    (hresolve : ∀ m m' : Marker, m.Alike m' → Claiming.Alike (resolve m) (resolve' m'))
    {offset offset' : Nat} {bs bs' : List Block} (h : Twins source source' offset offset' bs bs') :
    Claiming.Alike (run.splice source resolve offset bs) (run.splice source' resolve' offset' bs') := by
  induction h with
  | nil hrest =>
    rw [splice, splice, hrest]
    exact .refl _
  | cons hgap htwin _ ih =>
    rw [splice, splice]
    refine (hresolve _ _ htwin.opening).bind fun content? => ?_
    refine (Claiming.Alike.lift (fill_alike htwin content?)).bind fun body => ih.bind fun after => ?_
    rw [hgap, kept_eq htwin.openText, kept_eq htwin.endText]
    exact .refl _

/-- **Documents whose outermost blocks are twins are regenerated alike.** -/
theorem outermost_alike {d d' : Document} (hpool : pool.Similar pool')
    (h : Twins d.source d'.source 0 0 d.outermost d'.outermost) :
    Claiming.Alike (run.outermost pool d) (run.outermost pool' d') :=
  splice_alike (fun _ _ hm => resolve_alike hm hpool _) h

end Run

/-! ## Edits -/

namespace Edits

/-- **Edits that say the same**, wherever they were read. -/
structure Same (e e' : EditBlock) : Prop where
  /-- They have the same name. -/
  name : e'.name = e.name
  /-- They have the same body. -/
  content : e'.content = e.content
  /-- Either both may be lost or neither. -/
  mayBeLost : e'.mayBeLost = e.mayBeLost

variable {edits edits' : Edits}

/-- Edits say the same together with later ones that take their place. -/
theorem same_union (h : List.Forall₂ Same edits edits') (later : Edits) :
    List.Forall₂ Same (edits.union later) (edits'.union later) :=
  List.rel_append (List.rel_filter (fun _ _ he => by simp only [he.name]) h)
    (List.forall₂_same.2 fun _ _ => ⟨rfl, rfl, rfl⟩)

/-- What is found under a name says the same. -/
theorem map_content_get? (h : List.Forall₂ Same edits edits') (name : Text) :
    (edits.get? name).map EditBlock.content = (edits'.get? name).map EditBlock.content := by
  induction h with
  | nil => rfl
  | cons he _ ih =>
    rw [get?, get?, List.find?_cons, List.find?_cons, he.name]
    split
    · rw [Option.map_some, Option.map_some, he.content]
    · exact ih

/-- Pools of edits that say the same are similar. -/
theorem similar_singleton (h : List.Forall₂ Same edits edits') : Pool.Similar [edits] [edits'] :=
  fun name => by
    rw [Pool.find?_singleton, Pool.find?_singleton]
    exact map_content_get? h name

/-- **If edits say the same, both or neither are lost.** -/
theorem checkClaimed_alike (h : List.Forall₂ Same edits edits') (claimed : List Text) :
    Outcome.Alike (edits.checkClaimed claimed) (edits'.checkClaimed claimed) := by
  have hlost : List.Forall₂ Same (edits.filter fun e => !e.mayBeLost && e.name ∉ claimed)
      (edits'.filter fun e => !e.mayBeLost && e.name ∉ claimed) :=
    List.rel_filter (fun _ _ he => by simp only [he.name, he.mayBeLost]) h
  have hnone : first? (edits.filter fun e => !e.mayBeLost && e.name ∉ claimed) = none ↔
      first? (edits'.filter fun e => !e.mayBeLost && e.name ∉ claimed) = none := by
    rw [first?_eq_none_iff, first?_eq_none_iff]
    generalize edits.filter _ = lost at hlost
    generalize edits'.filter _ = lost' at hlost
    cases hlost <;> simp
  unfold checkClaimed
  split <;> split
  · exact .error rfl
  · simp_all
  · simp_all
  · exact .refl _

end Edits

namespace Document

/-- **Documents with twin blocks and the same edits are generated alike** in directive mode. -/
theorem generate_alike {renderer : Renderer} {context : Context} {s : Settings} {removeMarkers : Bool}
    {d d' : Document} (supplied : Supplied)
    (htwins : Run.Twins d.source d'.source 0 0 d.outermost d'.outermost)
    (hedits : List.Forall₂ Edits.Same d.edits d'.edits) :
    Outcome.Alike (generate renderer context s .directive removeMarkers d supplied)
      (generate renderer context s .directive removeMarkers d' supplied) := by
  have hsame := Edits.same_union hedits supplied.recovered
  refine Outcome.Alike.bind (Run.outermost_alike (Edits.similar_singleton hsame) htwins []) fun p => ?_
  exact (Edits.checkClaimed_alike hsame p.2).bind fun _ => .refl _

end Document

end Regen
