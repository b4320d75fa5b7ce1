import Mathlib.Logic.Relation
import Regen.Proofs.Progress
import Regen.Proofs.Regeneration

/-!
# What is left of empty contents

With markers removed, nothing but the contents of the blocks is written in their places, and it is asked here
what is left of a block whose content is empty. A content can be empty in three ways. The marker of the block
yields nothing, since its header is empty or its edit has no body; or it yields the empty text, since the header
is rendered to it or the body is a blank line; or what it yields is regenerated to the empty text, or to a
single line feed. The first and the last way come to no content at all, and nothing is written. The second
way comes to a content that happens to be empty, and a block that takes whole lines then leaves a line of
nothing but its indentation (`Run.LeavesLine`). On one line both are the same.

So a block with an empty content leaves no trace unless its marker yields the empty text and it takes whole
lines (`Run.Unmarked`). This is shown of all texts that are regenerated on the way to the output, at any
depth: each of them is a stage of the generation, and further stages are nested in it
(`Run.Nests`).
-/

namespace Regen

open Text (newline)

/-- **A stage of a generation**: a document that is about to be regenerated. -/
structure Stage where
  /-- How many further texts may be nested in it. -/
  levels : Nat
  /-- The edits at hand. -/
  pool : Pool
  /-- The document. -/
  document : Document
  /-- The names of the edits that have been asked for. -/
  claimed : List Text

/-- **What is written for an empty content** without markers: the indentation and a line feed if the block
takes whole lines and has a content nonetheless. -/
theorem Block.rewritten_of_empty {b : Block} {content? : Option Text} (h : content?.getD [] = []) :
    b.rewritten [] content? =
      if b.isInline = false ∧ content? = some [] then b.opening.bodyIndent ++ [newline] else [] := by
  cases hinline : b.isInline with
  | true => simp [Block.rewritten, hinline, h]
  | false =>
    cases content? with
    | none => simp [Block.rewritten, hinline]
    | some content =>
      obtain rfl : content = [] := h
      simp [Block.rewritten, hinline, Text.lines, Text.ofLines]

namespace Run

variable {run : Run} {source : Text} {pool : Pool} {m : Marker} {c c' : List Text}

/-! ## One block -/

/-- **A block leaves a line** of nothing but its indentation if it takes whole lines and its marker yields the
empty text. -/
def LeavesLine (run : Run) (source : Text) (pool : Pool) (b : Block) : Prop :=
  b.isInline = false ∧ run.Yields source pool b.opening (some [])

/-- Where markers are removed, what is made of a regenerated text is nothing, or a text that is not empty. -/
theorem finish_ne_some_nil (hremove : run.removeMarkers = true) (r : Text) : run.finish r ≠ some [] := by
  rw [finish, hremove, Bool.true_and]
  split
  · simp
  · rename_i hr
    simpa using hr

/-- **A marker is resolved to the empty text** if it yields the empty text: where markers are removed, a yield
that becomes empty by being regenerated counts as nothing. -/
theorem eq_some_nil_iff {evaluate : Evaluator} {x? : Option Text} (hremove : run.removeMarkers = true)
    (h : (run.resolve evaluate source pool m).run c = .ok (x?, c')) :
    x? = some [] ↔ run.Yields source pool m (some []) := by
  obtain ⟨u?, c₁, hyield, hsettle⟩ := resolve_eq_ok_iff.1 h
  have hyields : run.Yields source pool m u? := ⟨c, c₁, hyield⟩
  have hyields_iff : run.Yields source pool m (some []) ↔ u? = some [] :=
    ⟨fun h => hyields.unique h, fun h => h ▸ hyields⟩
  rw [hyields_iff]
  cases u? with
  | none =>
    obtain ⟨rfl, -⟩ := Claiming.run_pure_eq_ok_iff.1 hsettle
    rfl
  | some u =>
    by_cases hu : u = []
    · subst hu
      obtain ⟨rfl, -⟩ := Claiming.run_pure_eq_ok_iff.1 hsettle
      rfl
    · obtain ⟨r, -, rfl⟩ := (settle_some_eq_ok_iff hu).1 hsettle
      exact iff_of_false (finish_ne_some_nil hremove r) (mt Option.some.inj hu)

/-! ## One text -/

/-- **What a text is regenerated to without its markers**, if its outermost blocks get these contents. -/
structure Unmarked (run : Run) (stage : Stage) (o : Text) (cs : List (Option Text)) : Prop where
  /-- The contents are those that the markers of the blocks are resolved to. -/
  contents : ∃ claimed,
    (Run.contents (run.resolve (run.evaluate stage.levels) stage.document.source stage.pool)
      stage.document.outermost).run stage.claimed = .ok (cs, claimed)
  /-- There is one for each block. -/
  length_eq : cs.length = stage.document.outermost.length
  /-- The blocks are replaced by what is written for their contents, and the rest is kept. -/
  output : o = stage.document.source.patch 0 (List.zipWith (fun b content? =>
    (⟨b.openSpan.start, b.endSpan.stop⟩, b.rewritten [] content?)) stage.document.outermost cs)
  /-- Nothing is written for an empty content, however it became empty, unless the block leaves a line. -/
  traceless : ∀ p ∈ stage.document.outermost.zip cs, p.2.getD [] = [] →
    ¬ run.LeavesLine stage.document.source stage.pool p.1 → p.1.rewritten [] p.2 = []
  /-- A block that leaves a line has an empty content, and writes its indentation and a line feed. -/
  line : ∀ p ∈ stage.document.outermost.zip cs,
    run.LeavesLine stage.document.source stage.pool p.1 →
      p.2.getD [] = [] ∧ p.1.rewritten [] p.2 = p.1.opening.bodyIndent ++ [newline]

/-- Regenerates the document of a stage. -/
def regenerate (run : Run) (stage : Stage) : Outcome (Text × List Text) :=
  (run.directive (run.evaluate stage.levels) stage.pool stage.document).run stage.claimed

/-- **A text that is regenerated without its markers** is left with the contents of its blocks, and of empty
ones with nothing, except for the lines that some of them leave. -/
theorem exists_unmarked {t o : Text} {stage : Stage} (hremove : run.removeMarkers = true)
    (hd : Document.parse run.settings t = .ok stage.document)
    (h : run.regenerate stage = .ok (o, c')) : ∃ cs, run.Unmarked stage o cs := by
  obtain ⟨cs, hcs, -, ho⟩ := (Document.directive_eq_ok_iff hd).1 h
  rw [← Document.source_of_parse hd] at hcs ho
  have hpair : ∀ p ∈ stage.document.outermost.zip cs, (p.2 = some [] ↔
      run.Yields stage.document.source stage.pool p.1.opening (some [])) :=
    forall_mem_zip_contents (fun b _ c x? c' hresolve => eq_some_nil_iff hremove hresolve) hcs
  refine ⟨cs, ⟨_, hcs⟩, length_contents hcs, ?_, ?_, ?_⟩
  · rw [ho, hremove]
    rfl
  · intro p hp hempty hline
    rw [Block.rewritten_of_empty hempty, if_neg]
    rwa [hpair p hp]
  · rintro p hp ⟨hinline, hyields⟩
    have hsome : p.2 = some [] := (hpair p hp).2 hyields
    have hempty : p.2.getD [] = [] := by rw [hsome, Option.getD_some]
    rw [Block.rewritten_of_empty hempty, if_pos ⟨hinline, hsome⟩]
    exact ⟨hempty, rfl⟩

/-! ## All texts -/

/-- **A stage is nested in another**: its document is what the marker of an outermost block yields there. -/
inductive Nests (run : Run) : Stage → Stage → Prop
  /-- The generation gets to the block, and reads what its marker yields. -/
  | yields {levels : Nat} {pool : Pool} {d d' : Document} {b : Block} {c c₁ c₂ : List Text} {u : Text}
      (hgets : GetsTo (run.resolve (run.evaluate (levels + 1)) d.source pool) d.outermost c b c₁)
      (hyield : (run.yielded d.source pool b.opening).run c₁ = .ok (some u, c₂)) (hu : u ≠ [])
      (hd' : Document.parse run.settings u = .ok d') :
      Nests run ⟨levels + 1, pool, d, c⟩ ⟨levels, pool.beneath d'.edits, d', c₂⟩

/-- **A generation that succeeds has resolved each block that it gets to.** -/
theorem GetsTo.exists_resolve {resolve : Marker → Claiming (Option Text)} {bs : List Block} {b : Block}
    {c₁ : List Text} {cs : List (Option Text)} (hgets : GetsTo resolve bs c b c₁)
    (h : (contents resolve bs).run c = .ok (cs, c')) :
    ∃ content? c₂, (resolve b.opening).run c₁ = .ok (content?, c₂) := by
  induction hgets generalizing cs with
  | here =>
    obtain ⟨content?, c₂, -, hcontent, -⟩ := contents_cons_eq_ok_iff.1 h
    exact ⟨content?, c₂, hcontent⟩
  | later hcontent _ _ ih =>
    obtain ⟨content?, c₂, cs', hcontent', hcs, -⟩ := contents_cons_eq_ok_iff.1 h
    obtain ⟨rfl, rfl⟩ := Prod.mk.inj (Except.ok.inj (hcontent.symm.trans hcontent'))
    exact ih hcs

/-- **What is nested in a text that is regenerated is regenerated too.** -/
theorem Nests.exists_regenerate {stage inner : Stage} {t o : Text} (hnests : run.Nests stage inner)
    (hd : Document.parse run.settings t = .ok stage.document)
    (h : run.regenerate stage = .ok (o, c')) :
    (∃ u, Document.parse run.settings u = .ok inner.document) ∧
      ∃ r c₃, run.regenerate inner = .ok (r, c₃) := by
  obtain ⟨hgets, hyield, hu, hd'⟩ := hnests
  refine ⟨⟨_, hd'⟩, ?_⟩
  obtain ⟨cs, hcs, -, -⟩ := (Document.directive_eq_ok_iff hd).1 h
  rw [← Document.source_of_parse hd] at hcs
  obtain ⟨content?, c₃, hresolve⟩ := hgets.exists_resolve hcs
  obtain ⟨u?, c₄, hyield', hsettle⟩ := resolve_eq_ok_iff.1 hresolve
  obtain ⟨rfl, rfl⟩ := Prod.mk.inj (Except.ok.inj (hyield.symm.trans hyield'))
  obtain ⟨_, d'', r, ⟨⟩, hd'', hdirective⟩ := exists_directive_of_settle hu hsettle
  obtain rfl := Except.ok.inj (hd'.symm.trans hd'')
  exact ⟨r, c₃, hdirective⟩

/-- **All texts that are regenerated on the way are regenerated without their markers**, by induction on how
deeply they are nested. -/
theorem exists_unmarked_of_nests {stage inner : Stage} {t o : Text} (hremove : run.removeMarkers = true)
    (hd : Document.parse run.settings t = .ok stage.document)
    (h : run.regenerate stage = .ok (o, c')) (hnests : Relation.ReflTransGen run.Nests stage inner) :
    ∃ r claimed cs, run.regenerate inner = .ok (r, claimed) ∧ run.Unmarked inner r cs := by
  have hinner : (∃ u, Document.parse run.settings u = .ok inner.document) ∧
      ∃ r claimed, run.regenerate inner = .ok (r, claimed) := by
    induction hnests with
    | refl => exact ⟨⟨t, hd⟩, o, c', h⟩
    | tail _ hnext ih =>
      obtain ⟨⟨u, hd'⟩, r, claimed, h'⟩ := ih
      exact hnext.exists_regenerate hd' h'
  obtain ⟨⟨u, hd'⟩, r, claimed, h'⟩ := hinner
  obtain ⟨cs, hunmarked⟩ := exists_unmarked hremove hd' h'
  exact ⟨r, claimed, cs, h', hunmarked⟩

end Run

namespace Document

/-- **Empty contents leave no trace when markers are removed**, apart from those that were yielded as the empty
text. Take a generation in either mode with markers removed. Its output is what the text at the top is
regenerated to, and whatever else is regenerated on the way, at any depth, comes to a text in which its
outermost blocks are replaced by what is written for their contents. If such a content is empty, nothing is
written: be it that the marker yields nothing, that the block is an inline one, or that the yield was
regenerated to nothing, or to a line feed. The one exception is a block that takes whole lines and whose
marker yields the empty text: there an indented empty line is written. -/
theorem generate_removed {s : Settings} {t : Text} {d : Document} (hd : parse s t = .ok d)
    {renderer : Renderer} {context : Context} {mode : Mode} {supplied : Supplied} {o : Text}
    (h : generate renderer context s mode true d supplied = .ok o) :
    let run := Run.ofRenderer renderer context s true supplied.overrides
    ∃ top pool claimed, run.Starts d supplied.recovered mode top pool ∧
      run.regenerate ⟨s.maxDepth, pool, top, []⟩ = .ok (o, claimed) ∧
      ∀ stage, Relation.ReflTransGen run.Nests ⟨s.maxDepth, pool, top, []⟩ stage →
        ∃ r claimed cs, run.regenerate stage = .ok (r, claimed) ∧ run.Unmarked stage r cs := by
  intro run
  obtain ⟨husable, -⟩ := parse_eq_ok_iff.1 hd
  obtain ⟨top, pool, claimed, hstarts, hrun, -⟩ := (Run.generate_eq_ok_iff husable).1 h
  have htop : ∃ t', parse run.settings t' = .ok top := by
    cases hstarts with
    | directive => exact ⟨t, hd⟩
    | document _ htop => exact ⟨_, htop⟩
  obtain ⟨t', htop⟩ := htop
  have hregenerate : run.regenerate ⟨s.maxDepth, pool, top, []⟩ = .ok (o, claimed) := hrun
  exact ⟨top, pool, claimed, hstarts, hregenerate,
    fun stage hnests => Run.exists_unmarked_of_nests rfl htop hregenerate hnests⟩

/-- A document of a generation block that takes whole lines, and another one. -/
def emptied : Document :=
  ((parse .standard "[[[ a ]]]\n[[[ end ]]]\n  [[[ b ]]]\n  [[[ end ]]]\n").toOption).getD
    { source := [], marks := [], edits := [] }

/-- The one header yields a block without content, which is regenerated to nothing; the other one yields
the empty text. Only the second block leaves a line. -/
theorem generate_removed_emptied :
    let renderer : Renderer := fun t _ => .ok (if t = "a" then "[[[]]]\n[[[ end ]]]\n" else "")
    let run := Run.ofRenderer renderer [] .standard true []
    parse .standard "[[[ a ]]]\n[[[ end ]]]\n  [[[ b ]]]\n  [[[ end ]]]\n" = .ok emptied ∧
      generate renderer [] .standard .directive true emptied {} = .ok "  \n" ∧
      ∃ top pool claimed, run.Starts emptied [] .directive top pool ∧
        run.regenerate ⟨100, pool, top, []⟩ = .ok ("  \n", claimed) ∧
        ∀ stage, Relation.ReflTransGen run.Nests ⟨100, pool, top, []⟩ stage →
          ∃ r claimed cs, run.regenerate stage = .ok (r, claimed) ∧ run.Unmarked stage r cs := by
  intro renderer run
  have hd : parse .standard "[[[ a ]]]\n[[[ end ]]]\n  [[[ b ]]]\n  [[[ end ]]]\n" = .ok emptied := by rfl
  have h : generate renderer [] .standard .directive true emptied {} = .ok "  \n" := by decide +kernel
  exact ⟨hd, h, generate_removed hd h⟩

/-- A document of a single block that takes whole lines. -/
def lone : Document :=
  ((parse .standard "[[[ a ]]]\n[[[ end ]]]\n").toOption).getD { source := [], marks := [], edits := [] }

/-- **Not all empty contents leave no trace**: if the renderer answers with the empty text, an empty line is left
of the block. -/
theorem not_generate_removed_traceless :
    ¬ ∀ (s : Settings) (t : Text) (d : Document), parse s t = .ok d →
      ∀ (renderer : Renderer) (context : Context) (supplied : Supplied) (o : Text),
        generate renderer context s .directive true d supplied = .ok o →
        ∀ cs claimed,
          (let run := Run.ofRenderer renderer context s true supplied.overrides
          (Run.contents (run.resolve (run.evaluate s.maxDepth) t [d.edits.union supplied.recovered])
            d.outermost).run [] = .ok (cs, claimed)) →
          (∀ content? ∈ cs, content?.getD [] = []) →
          o = t.patch 0 (d.outermost.map fun b => (⟨b.openSpan.start, b.endSpan.stop⟩, [])) := by
  intro h
  have ho := h .standard "[[[ a ]]]\n[[[ end ]]]\n" lone (by rfl) (fun _ _ => .ok []) [] {} [newline] (by rfl)
    [some []] [] (by rfl) (by simp)
  revert ho
  decide +kernel

end Document

end Regen
