import Regen.Proofs.Agreement

/-!
# Setting a body and overriding it

A body for an edit of a document can be given in two ways: it can be set in the document, or it can be handed
over as an override. The two take different routes. A body that was set stands in the outermost layer of the
pool, in front of the layers of all texts that are generated further down; an override goes before the pool
altogether. Since the outermost layer has an edit of that name, both routes end at the same body for
every name and in every pool that a generation comes to (`Pool.Overrides`), and the layers beneath make no
difference to this (`Pool.Overrides.beneath`). So all computations are equal step by step, failures
included. What may not be lost is the same too, since a new body neither changes where an edit stands
nor whether it may be lost (`Edits.checkClaimed_setBodies`).

That the names are those of edits of the document is needed: an override of any other name also reaches the edits of
the texts that are generated.
-/

namespace Regen

/-- The edit with the body that is given under its name, if one is. -/
def EditBlock.withBody (bodies : List (Text × Text)) (e : EditBlock) : EditBlock :=
  { e with replacement := bodies.lookup e.name <|> e.replacement }

/-- A new body leaves the name of an edit as it is. -/
@[simp] theorem EditBlock.name_withBody (bodies : List (Text × Text)) (e : EditBlock) :
    (e.withBody bodies).name = e.name := rfl

/-- The body that is given under the name of an edit goes before its own. -/
theorem EditBlock.content_withBody (bodies : List (Text × Text)) (e : EditBlock) :
    (e.withBody bodies).content = (bodies.lookup e.name <|> e.content) := by
  rw [content, content, withBody]
  cases bodies.lookup e.name <;> rfl

namespace Edits

/-- Sets the bodies of the edits of these names, one after the other. -/
def setBodies (edits : Edits) (bodies : List (Text × Text)) : Edits :=
  bodies.foldl (fun edits p => edits.setBody p.1 p.2) edits

variable {edits : Edits} {bodies : List (Text × Text)}

/-- **Setting bodies one after the other** gives each edit the body under its name, if the names are
distinct. -/
theorem setBodies_eq_map (hnodup : (bodies.map Prod.fst).Nodup) :
    edits.setBodies bodies = edits.map (EditBlock.withBody bodies) := by
  induction bodies generalizing edits with
  | nil => exact (List.map_id edits).symm
  | cons p bodies ih =>
    obtain ⟨hnew, hnodup⟩ := List.nodup_cons.1 hnodup
    have hlookup : bodies.lookup p.1 = none := by
      rw [List.lookup_eq_none_iff]
      exact fun q hq => bne_iff_ne.2 fun h => hnew (List.mem_map.2 ⟨q, hq, h.symm⟩)
    show (edits.setBody p.1 p.2).setBodies bodies = _
    rw [ih hnodup, setBody, List.map_map]
    refine List.map_congr_left fun e _ => ?_
    rw [Function.comp_apply]
    by_cases hname : e.name = p.1
    · rw [if_pos hname, EditBlock.withBody, EditBlock.withBody, List.lookup_cons,
        show EditBlock.name { e with replacement := some p.2 } = p.1 from hname, hname, hlookup]
      simp
    · rw [if_neg hname, EditBlock.withBody, EditBlock.withBody, List.lookup_cons,
        beq_eq_false_iff_ne.2 hname]

/-- **Under each name the same edit is found**, and its body is the one given under this name, if one
is. -/
theorem get?_map_withBody (name : Text) :
    (get? (edits.map (EditBlock.withBody bodies)) name).map EditBlock.content
      = (edits.get? name).map fun e => bodies.lookup name <|> e.content := by
  rw [get?, get?, List.find?_map, Option.map_map]
  refine Option.map_congr fun e he => ?_
  have hname : e.name = name := by simpa using List.find?_some he
  rw [Function.comp_apply, EditBlock.content_withBody, hname]

/-- The edit whose name comes first is the same one, with its new body. -/
theorem first?_map_withBody :
    first? (edits.map (EditBlock.withBody bodies)) = (first? edits).map (EditBlock.withBody bodies) := by
  rw [first?, first?, List.foldl_map, ← List.foldl_hom (Option.map (EditBlock.withBody bodies))]
  · rfl
  · intro best? e
    cases best? with
    | none => rfl
    | some best =>
      show (if e.name < best.name then _ else _) = Option.map _ (if e.name < best.name then _ else _)
      split <;> rfl

/-- **New bodies change nothing about what is lost**, and a lost edit is reported at the same place. -/
theorem checkClaimed_setBodies (hnodup : (bodies.map Prod.fst).Nodup) (claimed : List Text) :
    (edits.setBodies bodies).checkClaimed claimed = edits.checkClaimed claimed := by
  rw [setBodies_eq_map hnodup, checkClaimed, checkClaimed, List.filter_map, first?_map_withBody]
  -- both are filtered by what a new body does not touch
  rw [show (fun e : EditBlock => !e.mayBeLost && decide (e.name ∉ claimed)) ∘ EditBlock.withBody bodies
    = fun e => !e.mayBeLost && decide (e.name ∉ claimed) from rfl]
  cases first? (edits.filter fun e => !e.mayBeLost && decide (e.name ∉ claimed)) <;> rfl

end Edits

/-! ## Pools in which the bodies have been set -/

namespace Pool

variable {bodies : List (Text × Text)} {p p' : Pool}

/-- **A pool has these bodies set** over another pool if there is an edit of each of their names in it, with
the body given, and if for every other name the same body is found in both. -/
def Overrides (bodies : List (Text × Text)) (p p' : Pool) : Prop :=
  ∀ name, (p'.find? name).map EditBlock.content =
    match bodies.lookup name with
    | some body => some (some body)
    | none => (p.find? name).map EditBlock.content

/-- What is found in a pool with the bodies set. -/
theorem Overrides.content (h : Overrides bodies p p') (name : Text) :
    p'.content name = (bodies.lookup name <|> p.content name) := by
  rw [content_eq_join, content_eq_join, h name]
  cases bodies.lookup name <;> rfl

/-- **The layers of generated texts come beneath the bodies that were set.** An edit of the same name in
such a layer is not found in either pool. -/
theorem Overrides.beneath (h : Overrides bodies p p') (own : Edits) :
    Overrides bodies (p.beneath own) (p'.beneath own) := by
  intro name
  rw [Pool.beneath, Pool.beneath, find?_append, find?_append, Option.map_or, Option.map_or, h name]
  cases bodies.lookup name <;> rfl

/-- **Setting bodies overrides them**, if there are edits of all of their names. -/
theorem overrides_setBodies {edits : Edits} (hnodup : (bodies.map Prod.fst).Nodup)
    (hnames : bodies.map Prod.fst ⊆ edits.map EditBlock.name) :
    Overrides bodies [edits] [edits.setBodies bodies] := by
  intro name
  rw [find?_singleton, find?_singleton, Edits.setBodies_eq_map hnodup, Edits.get?_map_withBody]
  cases hlookup : bodies.lookup name with
  | some body =>
    obtain ⟨q, hq, hname⟩ := List.lookup_isSome_iff.1 (Option.isSome_of_eq_some hlookup)
    have hmem : name ∈ bodies.map Prod.fst := List.mem_map.2 ⟨q, hq, (eq_of_beq hname).symm⟩
    obtain ⟨e, he⟩ := Option.isSome_iff_exists.1 (Edits.get?_isSome_iff.2 (hnames hmem))
    rw [he]
    rfl
  | none => rfl

end Pool

/-! ## Generating with either -/

namespace Run

variable {run : Run} {source : Text} {p p' : Pool}

/-- The run without overrides. -/
def bare (run : Run) : Run := { run with overrides := [] }

/-- **What a marker yields** is the same whether bodies are overridden or set. -/
theorem yielded_bare (h : p.Overrides run.overrides p') (m : Marker) :
    run.bare.yielded source p' m = run.yielded source p m := by
  rw [yielded, yielded, claim, claim, h.content]
  rfl

/-- What a marker is resolved to is the same, if what it yields is evaluated alike. -/
theorem resolve_bare {evaluate evaluate' : Evaluator} (h : p.Overrides run.overrides p')
    (hevaluate : ∀ m t, evaluate' source m p' t = evaluate source m p t) :
    run.bare.resolve evaluate' source p' = run.resolve evaluate source p := by
  funext m
  rw [resolve, resolve, yielded_bare h]
  simp only [hevaluate]
  rfl

/-- The blocks are filled alike. -/
theorem splice_bare (resolve : Marker → Claiming (Option Text)) (offset : Nat) (bs : List Block) :
    run.bare.splice source resolve offset bs = run.splice source resolve offset bs := by
  induction bs generalizing offset with
  | nil => rfl
  | cons b bs ih =>
    rw [splice, splice, ih]
    rfl

/-- **What is evaluated is the same** at any level, by induction on the levels: the edits of the text that
is read come beneath both pools. -/
theorem evaluate_bare {levels : Nat} (h : p.Overrides run.overrides p') (m : Marker) (t : Text) :
    run.bare.evaluate levels source m p' t = run.evaluate levels source m p t := by
  induction levels generalizing source p p' m t with
  | zero => rfl
  | succ levels ih =>
    rw [evaluate, evaluate]
    refine congrArg (liftM (Document.parse run.settings t) >>= ·) (funext fun d => ?_)
    rw [directive, directive, splice_bare,
      resolve_bare (h.beneath d.edits) fun m t => ih (h.beneath d.edits) m t]

/-- The text at the top is regenerated alike. -/
theorem outermost_bare (h : p.Overrides run.overrides p') (d : Document) :
    run.bare.outermost p' d = run.outermost p d := by
  rw [outermost, outermost, directive, directive, splice_bare,
    resolve_bare h fun m t => evaluate_bare h m t]
  rfl

end Run

namespace Document

/-- **Setting a body equals overriding it.** Give bodies to some of the edits of a document, either by
setting them or by handing them over as overrides. Then in directive mode there is the same output, or
the same error with the same trail, whatever the renderer does with headers, whatever markers
there are in what it answers or in the bodies, and whether markers are removed or not. -/
theorem generate_setBodies (renderer : Renderer) (context : Context) (s : Settings)
    (removeMarkers : Bool) (d : Document) {bodies : List (Text × Text)}
    (hnodup : (bodies.map Prod.fst).Nodup)
    (hnames : bodies.map Prod.fst ⊆ d.edits.map EditBlock.name) :
    generate renderer context s .directive removeMarkers { d with edits := d.edits.setBodies bodies } {}
      = generate renderer context s .directive removeMarkers d { overrides := bodies } := by
  let run := Run.ofRenderer renderer context s removeMarkers bodies
  show Run.complete ((d.edits.setBodies bodies).union [])
      (run.bare.outermost [(d.edits.setBodies bodies).union []] d)
    = Run.complete (d.edits.union []) (run.outermost [d.edits.union []] d)
  have hpool : Pool.Overrides run.overrides [d.edits] [d.edits.setBodies bodies] :=
    Pool.overrides_setBodies hnodup hnames
  rw [Edits.union_nil, Edits.union_nil, Run.outermost_bare hpool]
  exact Run.complete_congr fun _ claimed _ => Edits.checkClaimed_setBodies hnodup claimed

/-- A document of a generation block whose generated text has an edit block. -/
def retained : Document :=
  ((parse .standard "[[[ g ]]]\n<<[ a ]>>\nb\n<<[ end ]>>\n[[[ end ]]]\n").toOption).getD
    { source := [], marks := [], edits := [] }

/-- The header yields an edit block of the same name with a body of its own, and the new body holds a
generation block. Either way it is the new body that is put back, and it is regenerated there. -/
theorem generate_setBodies_retained :
    let renderer : Renderer :=
      fun t _ => .ok (if t = "g" then "<<[ a ]>>\nc\n<<[ end ]>>\n" else "x")
    parse .standard "[[[ g ]]]\n<<[ a ]>>\nb\n<<[ end ]>>\n[[[ end ]]]\n" = .ok retained ∧
      generate renderer [] .standard .directive true retained
        { overrides := [("a", "[[[ h ]]] [[[ end ]]]")] } = .ok "x\n" ∧
      generate renderer [] .standard .directive true
          { retained with edits := retained.edits.setBodies [("a", "[[[ h ]]] [[[ end ]]]")] } {}
        = generate renderer [] .standard .directive true retained
          { overrides := [("a", "[[[ h ]]] [[[ end ]]]")] } := by
  exact ⟨by rfl, by decide +kernel,
    generate_setBodies _ [] .standard true retained (by decide +kernel) (by decide +kernel)⟩

end Document

end Regen
