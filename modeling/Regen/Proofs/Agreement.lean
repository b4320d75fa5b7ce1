import Regen.Proofs.HeldAside
import Regen.Proofs.Modes
import Regen.Proofs.Regeneration

/-!
# Where the two modes agree

If the renderer changes nothing of the text that it is handed in document mode, the text at the top of both
modes is the same. The edits are not kept the same way, though: in directive mode those of the document are
at hand, in document mode they come from reading the rendered text, beneath those at hand, and the ones
outside of generation blocks are at hand no more. This makes no difference to what is found under a name, and
a generation depends on the pool in no other way (`Run.outermost_congr`). Nor does it to what is lost, since
the edits that are not at hand any more are outermost, so a generation that succeeds has asked for them.
So both modes give the same answer, and the same error (`Document.generate_document_eq`).
-/

namespace Regen

/-! ## Pools in which the same is found -/

namespace Pool

/-- **Pools agree** if the same edit is found in them under each name. -/
def Agree (p p' : Pool) : Prop := ∀ name, p.find? name = p'.find? name

/-- What is found in a pool is found in its first layers, or else in the others. -/
theorem find?_append (p p' : Pool) (name : Text) :
    find? (p ++ p') name = (p.find? name).or (p'.find? name) := List.findSome?_append

/-- What is found in a single layer. -/
theorem find?_singleton (edits : Edits) (name : Text) : find? [edits] name = edits.get? name := by
  simp [find?]

/-- The body that is found in a pool is the one of the edit that is found. -/
theorem content_eq_join (p : Pool) (name : Text) :
    p.content name = ((p.find? name).map EditBlock.content).join := by
  rw [content]
  cases p.find? name <;> rfl

/-- **Pools are similar** if they have edits of the same names, with the same bodies, wherever these were
read. -/
def Similar (p p' : Pool) : Prop :=
  ∀ name, (p.find? name).map EditBlock.content = (p'.find? name).map EditBlock.content

/-- Pools that agree are similar. -/
theorem Agree.similar {p p' : Pool} (h : Agree p p') : Similar p p' := fun name => by rw [h name]

/-- Similar pools give the same bodies. -/
theorem Similar.content {p p' : Pool} (h : Similar p p') (name : Text) :
    p.content name = p'.content name := by
  rw [content_eq_join, content_eq_join, h name]

/-- Pools stay similar when the same edits come beneath them. -/
theorem Similar.beneath {p p' : Pool} (h : Similar p p') (own : Edits) :
    Similar (p.beneath own) (p'.beneath own) := fun name => by
  rw [Pool.beneath, Pool.beneath, find?_append, find?_append, Option.map_or, Option.map_or, h name]

end Pool

namespace Run

variable {run : Run} {source : Text} {p p' : Pool}

/-- What a marker yields depends on the bodies in the pool. -/
theorem yielded_congr (h : p.Similar p') (m : Marker) :
    run.yielded source p m = run.yielded source p' m := by
  rw [yielded, yielded, claim, claim, h.content]

/-- What a marker is resolved to depends on the bodies in the pool, if what it yields is evaluated alike. -/
theorem resolve_congr {evaluate : Evaluator} (h : p.Similar p')
    (hevaluate : ∀ m t, evaluate source m p t = evaluate source m p' t) :
    run.resolve evaluate source p = run.resolve evaluate source p' := by
  funext m
  rw [resolve, resolve, yielded_congr h]
  simp only [hevaluate]

/-- **What is evaluated depends on the bodies in the pool**, at any level. -/
theorem evaluate_congr {levels : Nat} (h : p.Similar p') (m : Marker) (t : Text) :
    run.evaluate levels source m p t = run.evaluate levels source m p' t := by
  induction levels generalizing source p p' m t with
  | zero => rfl
  | succ levels ih =>
    rw [evaluate, evaluate]
    refine congrArg (liftM (Document.parse run.settings t) >>= ·) (funext fun d => ?_)
    rw [directive, directive, resolve_congr (h.beneath d.edits) fun m t => ih (h.beneath d.edits) m t]

/-- **A generation depends on what is found in the pool.** -/
theorem outermost_congr (h : p.Agree p') (d : Document) : run.outermost p d = run.outermost p' d := by
  rw [outermost, outermost, directive, directive,
    resolve_congr h.similar fun m t => evaluate_congr h.similar m t]

end Run

/-! ## The edits at hand in either mode -/

namespace Edits

/-- Edits that are chosen by their names. -/
theorem get?_filter (edits : Edits) (p : Text → Bool) (name : Text) :
    get? (edits.filter fun e => p e.name) name = if p name then edits.get? name else none := by
  rw [get?, get?]
  induction edits with
  | nil => simp
  | cons e edits ih =>
    by_cases he : e.name = name
    · subst he
      cases hp : p e.name with
      | true => simp [hp]
      | false => simpa [hp] using ih
    · have hne : (e.name == name) = false := beq_eq_false_iff_ne.2 he
      rw [List.filter_cons, List.find?_cons, hne]
      split
      · rw [List.find?_cons, hne]
        exact ih
      · exact ih

/-- **Later edits go before the others**, name by name. -/
theorem get?_union (edits later : Edits) (name : Text) :
    (edits.union later).get? name = (later.get? name).or (edits.get? name) := by
  have hfilter := get?_filter edits (fun name => (later.get? name).isNone) name
  rw [get?] at hfilter
  rw [union, get?, List.find?_append, hfilter]
  cases hlater : later.get? name with
  | none =>
    have hfind : later.find? (·.name == name) = none := hlater
    simp [hfind]
  | some e =>
    have hfind : later.find? (·.name == name) = some e := hlater
    simp [hfind]

end Edits

namespace Run

variable {d : Document} {recovered : Edits}

/-- **The same is found in both modes**, if the rendered text has the edits of the document. -/
theorem agree_atHand (d : Document) (recovered : Edits) :
    Pool.Agree (Pool.beneath [atHand .document d recovered] d.edits)
      [atHand .directive d recovered] := by
  intro name
  have hfilter : Edits.get? (d.edits.filter (·.name ∉ (Holding.ofDocument d).freed)) name
      = if name ∉ (Holding.ofDocument d).freed then d.edits.get? name else none := by
    simpa using Edits.get?_filter d.edits (fun name => name ∉ (Holding.ofDocument d).freed) name
  rw [Pool.beneath, Pool.find?_append, Pool.find?_singleton, Pool.find?_singleton,
    Pool.find?_singleton, atHand, atHand, Edits.get?_union, Edits.get?_union, hfilter]
  cases recovered.get? name with
  | some e => rfl
  | none => split <;> simp

/-- **The same is lost in both modes**, once all edits have been asked for that are outside of generation
blocks. -/
theorem checkClaimed_atHand {claimed : List Text}
    (hfreed : ∀ name ∈ (Holding.ofDocument d).freed, name ∈ claimed) :
    (atHand .document d recovered).checkClaimed claimed
      = (atHand .directive d recovered).checkClaimed claimed := by
  have hlost : (atHand .document d recovered).filter (fun e => !e.mayBeLost && e.name ∉ claimed)
      = (atHand .directive d recovered).filter (fun e => !e.mayBeLost && e.name ∉ claimed) := by
    rw [atHand, atHand, Edits.union, Edits.union, List.filter_append, List.filter_append]
    refine congrArg (· ++ _) ?_
    rw [List.filter_filter, List.filter_filter, List.filter_filter]
    refine List.filter_congr fun e _ => ?_
    by_cases hname : e.name ∈ (Holding.ofDocument d).freed
    · simp [hname, hfreed e.name hname]
    · simp [hname]
  rw [Edits.checkClaimed, Edits.checkClaimed, hlost]

/-- A generation is complete alike with other edits if the same is lost of them when it succeeds. -/
theorem complete_congr {edits edits' : Edits} {generation : Claiming Text}
    (h : ∀ o claimed, generation.run [] = .ok (o, claimed) →
      edits.checkClaimed claimed = edits'.checkClaimed claimed) :
    complete edits generation = complete edits' generation := by
  rw [complete, complete]
  cases hrun : generation.run [] with
  | error e => rfl
  | ok r => exact congrArg (· >>= fun _ => .ok r.1) (h r.1 r.2 hrun)

/-- **A generation that succeeds has asked for all outermost edits.** -/
theorem name_mem_claimed {run : Run} {pool : Pool} {t o : Text} {d : Document} {claimed : List Text}
    (hd : Document.parse run.settings t = .ok d)
    (h : (run.outermost pool d).run [] = .ok (o, claimed)) {b : Block} (hb : b ∈ d.outermost)
    (hfamily : b.family = .edit) : b.name ∈ claimed := by
  obtain ⟨cs, claims, htree, -, -, rfl, -⟩ := regenerated_of_outermost hd h
  have hasked : (b.name, run.chosen pool b.name) ∈ claims :=
    htree.asked_subset hb (mem_asked_iff.2 ⟨hfamily, rfl⟩)
  exact List.mem_reverse.2 (List.mem_map_of_mem hasked)

end Run

namespace Document

/-- **Document mode comes to directive mode if the renderer changes nothing of the text.** Take a document
whose text holds no beginning of a placeholder, in which no pair mixes the families, and a renderer that
hands back the text with its generation blocks held aside as it is, and does with headers whatever it
does. Then in both modes there is the same output, or the same error with the same trail. -/
theorem generate_document_eq {s : Settings} {t : Text} {d : Document} (hd : parse s t = .ok d)
    (hbeginning : ¬ Text.ofString "°#@[COGMARK_" <:+: t) (hunmixed : ∀ b ∈ d.blocks, b.Unmixed)
    {renderer : Renderer} {context : Context}
    (hrender : renderer (Holding.ofDocument d).buffer context = .ok (Holding.ofDocument d).buffer)
    (removeMarkers : Bool) (supplied : Supplied) :
    generate renderer context s .document removeMarkers d supplied
      = generate renderer context s .directive removeMarkers d supplied := by
  obtain ⟨husable, -⟩ := parse_eq_ok_iff.1 hd
  let run := Run.ofRenderer renderer context s removeMarkers supplied.overrides
  have hrendered : run.renderedDocument d = .ok t :=
    renderedDocument_eq_source hd hunmixed (unheld_of_beginning hbeginning) hrender
  show run.documentMode d supplied.recovered = run.directiveMode d supplied.recovered
  have hreads : run.documentMode d supplied.recovered
      = Run.complete (Run.atHand .document d supplied.recovered)
          (run.outermost (Pool.beneath [Run.atHand .document d supplied.recovered] d.edits) d) := by
    rw [Run.documentMode_eq husable, hrendered]
    show Document.parse s t >>= _ = _
    rw [hd]
    rfl
  rw [hreads, Run.outermost_congr (Run.agree_atHand d supplied.recovered)]
  refine Run.complete_congr fun o claimed hrun => Run.checkClaimed_atHand fun name hname => ?_
  obtain ⟨b, hb, rfl⟩ := List.mem_map.1 ((exists_gapped hd hunmixed).2 name hname)
  obtain ⟨hb, hfamily⟩ := List.mem_filter.1 hb
  exact Run.name_mem_claimed hd hrun hb (by simpa using hfamily)

/-- A document of an edit around a generation block, and another generation block. -/
def around : Document :=
  ((parse .standard
      "<<[ c ]>>\n[[[ a ]]]\n[[[ end ]]]\n<<[ end ]>>\n[[[ b ]]] [[[ end ]]]\n").toOption).getD
    { source := [], marks := [], edits := [] }

/-- Both generation blocks are held aside, and the edit around the one of them is at hand no more. -/
theorem generate_document_eq_around :
    parse .standard "<<[ c ]>>\n[[[ a ]]]\n[[[ end ]]]\n<<[ end ]>>\n[[[ b ]]] [[[ end ]]]\n"
        = .ok around ∧
      (Holding.ofDocument around).held.length = 2 ∧ (Holding.ofDocument around).freed = ["c"] ∧
      generate (fun t _ => .ok t) [] .standard .document false around {}
        = generate (fun t _ => .ok t) [] .standard .directive false around {} := by
  have hd : parse .standard
      "<<[ c ]>>\n[[[ a ]]]\n[[[ end ]]]\n<<[ end ]>>\n[[[ b ]]] [[[ end ]]]\n" = .ok around := by rfl
  have hbeginning : ¬ Text.ofString "°#@[COGMARK_" <:+:
      Text.ofString "<<[ c ]>>\n[[[ a ]]]\n[[[ end ]]]\n<<[ end ]>>\n[[[ b ]]] [[[ end ]]]\n" := by
    decide +kernel
  exact ⟨hd, by decide +kernel, by decide +kernel,
    generate_document_eq hd hbeginning (by decide +kernel) rfl false {}⟩

end Document

end Regen
