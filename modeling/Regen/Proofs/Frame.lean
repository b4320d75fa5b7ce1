import Regen.Generate
import Regen.Proofs.Body
import Regen.Proofs.Nesting

/-!
# What regeneration leaves alone

A document is regenerated block by block, and only what stands between the two spans of an
outermost block is written anew. So the output is the source with one stretch for each outermost
block replaced (`Text.patch`). That the stretches are in order, so that nothing is written twice or
left out, is `Document.spans_ordered`; what is put in their place depends on the block and on the
content that its open marker was resolved to, and on nothing else (`Block.rewritten`).

With markers removed the stretches begin and end with the spans of the block, and what is put in
the place of an inline block comes without padding.
-/

namespace Regen

/-- The text from an offset on with some stretches of it replaced. -/
def Text.patch (t : Text) : (offset : Nat) → List (Span × Text) → Text
  | offset, [] => t.drop offset
  | offset, (s, replacement) :: rest =>
    t.extract offset s.start ++ replacement ++ patch t s.stop rest

namespace Block

/-- **What is written for a body**: the content with padding around it, or lines of their own, each
behind the indentation of the body. -/
def rewritten (padding : Text) (b : Block) (content? : Option Text) : Text :=
  if b.isInline then padding ++ content?.getD [] ++ padding
  else match content? with
    | none => []
    | some content =>
      Text.ofLines ((Text.lines content).map (b.opening.bodyIndent ++ ·)) ++ [Text.newline]

/-- The stretch that is written anew, and what is written in its place. -/
def patched (removeMarkers : Bool) (b : Block) (content? : Option Text) : Span × Text :=
  if removeMarkers then (⟨b.openSpan.start, b.endSpan.stop⟩, b.rewritten [] content?)
  else (⟨b.openSpan.stop, b.endSpan.start⟩, b.rewritten [Text.space] content?)

end Block

/-! ## Texts with replaced stretches -/

namespace Text

/-- Adjacent stretches make up one. -/
theorem extract_append_extract (t : Text) {i j k : Nat} (hij : i ≤ j) (hjk : j ≤ k) :
    t.extract i j ++ t.extract j k = t.extract i k := by
  simp only [List.extract_eq_take_drop]
  rw [show k - i = (j - i) + (k - j) by omega, List.take_add, List.drop_drop,
    show i + (j - i) = j by omega]

/-- A replaced text can be read from further in front. -/
theorem extract_append_patch {t : Text} {i j : Nat} {spans : List (Span × Text)} (hij : i ≤ j)
    (hj : ∀ p ∈ spans.head?, j ≤ p.1.start) :
    t.extract i j ++ patch t j spans = patch t i spans := by
  cases spans with
  | nil =>
    rw [patch, patch, List.extract_eq_take_drop]
    conv_rhs => rw [← List.take_append_drop (j - i) (t.drop i), List.drop_drop,
      show i + (j - i) = j by omega]
  | cons p spans =>
    rw [patch, patch, ← extract_append_extract t hij (hj p rfl)]
    simp only [List.append_assoc]

end Text

/-! ## Regenerated blocks -/

namespace Run

variable {run : Run} {source : Text}

/-- The run that a generation starts. -/
def ofRenderer (renderer : Renderer) (context : Context) (s : Settings) (removeMarkers : Bool)
    (overrides : List (Text × Text)) : Run :=
  { render := (renderer · context), settings := s, removeMarkers, overrides }

/-- The padding of inline bodies. -/
def padding (run : Run) : Text := if run.removeMarkers then [] else [Text.space]

/-- **A body is filled** unless an inline block would get several lines. -/
theorem fill_eq_ok_iff {b : Block} {content? : Option Text} {body : Text} :
    run.fill source b content? = .ok body ↔
      (b.isInline → Text.newline ∉ content?.getD []) ∧
        body = b.rewritten run.padding content? := by
  unfold fill Block.rewritten padding
  cases b.isInline with
  | false =>
    cases content? with
    | none => simp [eq_comm]
    | some content => simp [Text.indent_eq_ofLines, eq_comm]
  | true =>
    by_cases hline : Text.newline ∈ content?.getD []
    · simp [hline, failAt, fail]
    · cases run.removeMarkers <;> simp [hline, eq_comm]

/-- The contents that the open markers of these blocks are resolved to. -/
def contents (resolve : Marker → Claiming (Option Text)) (bs : List Block) :
    Claiming (List (Option Text)) := bs.mapM (resolve ·.opening)

/-- Blocks are resolved one after the other. -/
theorem contents_cons_eq_ok_iff {resolve : Marker → Claiming (Option Text)} {b : Block}
    {bs : List Block} {cs : List (Option Text)} {c c' : List Text} :
    (contents resolve (b :: bs)).run c = .ok (cs, c') ↔
      ∃ content? c₁ cs', (resolve b.opening).run c = .ok (content?, c₁) ∧
        (contents resolve bs).run c₁ = .ok (cs', c') ∧ cs = content? :: cs' := by
  rw [contents, List.mapM_cons]
  simp only [Claiming.run_bind_eq_ok_iff, Claiming.run_pure_eq_ok_iff]
  constructor
  · rintro ⟨content?, c₁, hcontent, cs', _, hcs, rfl, rfl⟩
    exact ⟨content?, c₁, cs', hcontent, hcs, rfl⟩
  · rintro ⟨content?, c₁, cs', hcontent, hcs, rfl⟩
    exact ⟨content?, c₁, hcontent, cs', c', hcs, rfl, rfl⟩

/-- There are as many contents as blocks. -/
theorem length_contents {resolve : Marker → Claiming (Option Text)} {bs : List Block}
    {cs : List (Option Text)} {c c' : List Text}
    (h : (contents resolve bs).run c = .ok (cs, c')) : cs.length = bs.length := by
  induction bs generalizing cs c with
  | nil =>
    obtain ⟨rfl, -⟩ := Claiming.run_pure_eq_ok_iff.1 h
    rfl
  | cons b bs ih =>
    obtain ⟨content?, c₁, cs', -, hcs, rfl⟩ := contents_cons_eq_ok_iff.1 h
    rw [List.length_cons, List.length_cons, ih hcs]

/-- The first stretch that is replaced is that of the first block. -/
theorem le_start_of_mem_head? {bs : List Block} {cs : List (Option Text)} {i : Nat}
    (h : ∀ b ∈ bs, i ≤ b.openSpan.stop) {p : Span × Text}
    (hp : p ∈ (List.zipWith (Block.patched false) bs cs).head?) : i ≤ p.1.start := by
  cases bs with
  | nil => cases hp
  | cons b bs =>
    cases cs with
    | nil => cases hp
    | cons content? cs =>
      cases hp
      exact h b (by simp)

/-- **What is written for a block**, between the text in front of it and what is written for the blocks behind
it, replaces its stretch. -/
theorem patch_cons_eq {b : Block} {bs : List Block} {offset : Nat} (hoffset : offset ≤ b.openSpan.start)
    (hopen : b.openSpan.start ≤ b.openSpan.stop) (hend : b.endSpan.start ≤ b.endSpan.stop)
    (hbehind : ∀ c ∈ bs, b.endSpan.stop ≤ c.openSpan.stop) (content? : Option Text)
    (cs : List (Option Text)) :
    source.extract offset b.openSpan.start ++ run.kept source b.openSpan
        ++ b.rewritten run.padding content? ++ run.kept source b.endSpan
        ++ source.patch b.endSpan.stop (List.zipWith (Block.patched run.removeMarkers) bs cs)
      = source.patch offset
          (List.zipWith (Block.patched run.removeMarkers) (b :: bs) (content? :: cs)) := by
  rw [List.zipWith_cons_cons]
  cases hremove : run.removeMarkers with
  | true => simp [kept, padding, Block.patched, Text.patch, hremove]
  | false =>
    have hfront := Text.extract_append_extract source hoffset hopen
    have hnext : ∀ p ∈ (List.zipWith (Block.patched false) bs cs).head?, b.endSpan.stop ≤ p.1.start :=
      fun _ hp => le_start_of_mem_head? hbehind hp
    have hrest := Text.extract_append_patch (t := source) hend hnext
    simp only [kept, padding, hremove, Bool.false_eq_true, ite_false, Span.of, Block.patched,
      Text.patch]
    rw [hfront, List.append_assoc, hrest]

/-- **Regenerating blocks** resolves them one after the other and replaces the stretches between
their spans. -/
theorem splice_eq_ok_iff {resolve : Marker → Claiming (Option Text)} {offset : Nat}
    {bs : List Block} {c c' : List Text} {o : Text}
    (hordered : ∀ b ∈ bs, b.openSpan.start ≤ b.openSpan.stop ∧ b.openSpan.stop ≤ b.endSpan.start ∧
      b.endSpan.start ≤ b.endSpan.stop ∧ b.endSpan.stop ≤ source.length)
    (hdisjoint : bs.Pairwise fun b b' => b.endSpan.stop ≤ b'.openSpan.start)
    (hoffset : ∀ b ∈ bs, offset ≤ b.openSpan.start) :
    (run.splice source resolve offset bs).run c = .ok (o, c') ↔
      ∃ cs, (contents resolve bs).run c = .ok (cs, c') ∧
        (∀ p ∈ bs.zip cs, p.1.isInline → Text.newline ∉ p.2.getD []) ∧
        o = source.patch offset (List.zipWith (Block.patched run.removeMarkers) bs cs) := by
  induction bs generalizing offset c c' o with
  | nil =>
    rw [splice, contents, List.mapM_nil, Claiming.run_pure_eq_ok_iff]
    constructor
    · rintro ⟨rfl, rfl⟩
      exact ⟨[], Claiming.run_pure_eq_ok_iff.2 ⟨rfl, rfl⟩, by simp, rfl⟩
    · rintro ⟨cs, hcs, -, rfl⟩
      obtain ⟨rfl, rfl⟩ := Claiming.run_pure_eq_ok_iff.1 hcs
      exact ⟨rfl, rfl⟩
  | cons b bs ih =>
    obtain ⟨hfirst, hdisjoint⟩ := List.pairwise_cons.1 hdisjoint
    obtain ⟨⟨hopen, -, hend, -⟩, hordered⟩ := List.forall_mem_cons.1 hordered
    have ih := fun c c' o => @ih b.endSpan.stop c c' o hordered hdisjoint hfirst
    have hpatch := @patch_cons_eq run source b bs offset (hoffset b (by simp)) hopen hend
      fun c hc => (hfirst c hc).trans (hordered c hc).1
    rw [splice]
    simp only [Claiming.run_bind_eq_ok_iff, Claiming.run_lift_eq_ok_iff,
      Claiming.run_pure_eq_ok_iff, fill_eq_ok_iff, ih, contents_cons_eq_ok_iff]
    constructor
    · rintro ⟨content?, c₁, hcontent, _, _, ⟨⟨hline, rfl⟩, rfl⟩, _, c₂, ⟨cs, hcs, hlines, rfl⟩,
        rfl, rfl⟩
      refine ⟨content? :: cs, ⟨content?, c₁, cs, hcontent, hcs, rfl⟩, ?_, hpatch content? cs⟩
      rw [List.zip_cons_cons, List.forall_mem_cons]
      exact ⟨hline, hlines⟩
    · rintro ⟨_, ⟨content?, c₁, cs, hcontent, hcs, rfl⟩, hlines, rfl⟩
      rw [List.zip_cons_cons, List.forall_mem_cons] at hlines
      exact ⟨content?, c₁, hcontent, _, _, ⟨⟨hlines.1, rfl⟩, rfl⟩, _, c',
        ⟨cs, hcs, hlines.2, rfl⟩, hpatch content? cs, rfl⟩

/-- A generation is complete if it succeeds and loses no edit. -/
theorem complete_eq_ok_iff {edits : Edits} {generation : Claiming Text} {o : Text} :
    complete edits generation = .ok o ↔
      ∃ claimed, generation.run [] = .ok (o, claimed) ∧ edits.checkClaimed claimed = .ok () := by
  rw [complete, bind_eq_ok_iff]
  constructor
  · rintro ⟨⟨output, claimed⟩, hrun, h⟩
    obtain ⟨⟨⟩, hcheck, ⟨⟩⟩ := bind_eq_ok_iff.1 h
    exact ⟨claimed, hrun, hcheck⟩
  · rintro ⟨claimed, hrun, hcheck⟩
    exact ⟨(o, claimed), hrun, bind_eq_ok_iff.2 ⟨(), hcheck, rfl⟩⟩

end Run

namespace Document

variable {s : Settings} {t : Text} {d : Document}

/-- Outermost blocks are opened by open markers. -/
theorem opens_of_parse (hd : parse s t = .ok d) : ∀ b ∈ d.outermost, b.opening.isEnd = false := by
  have houter := outermost_of_parse hd
  intro b hb
  obtain ⟨inner, henclosed⟩ := houter.exists_encloses b hb
  exact henclosed.opens

/-- **Regenerating a document** resolves its outermost blocks one after the other and replaces the
stretches between their spans. -/
theorem directive_eq_ok_iff (hd : parse s t = .ok d) {run : Run} {evaluate : Run.Evaluator}
    {pool : Pool} {c c' : List Text} {o : Text} :
    (run.directive evaluate pool d).run c = .ok (o, c') ↔
      ∃ cs, (Run.contents (run.resolve evaluate t pool) d.outermost).run c = .ok (cs, c') ∧
        (∀ p ∈ d.outermost.zip cs, p.1.isInline → Text.newline ∉ p.2.getD []) ∧
        o = t.patch 0 (List.zipWith (Block.patched run.removeMarkers) d.outermost cs) := by
  obtain ⟨hordered, hdisjoint⟩ := spans_ordered hd 1
  rw [Run.directive, source_of_parse hd]
  exact Run.splice_eq_ok_iff hordered hdisjoint fun _ _ => Nat.zero_le _

/-- **Generation in directive mode** succeeds if the blocks are regenerated and no edit at hand is
lost. -/
theorem generate_directive_eq_ok_iff {renderer : Renderer} {context : Context}
    {removeMarkers : Bool} {supplied : Supplied} {o : Text} :
    generate renderer context s .directive removeMarkers d supplied = .ok o ↔
      ∃ claimed, ((Run.ofRenderer renderer context s removeMarkers supplied.overrides).outermost
          [d.edits.union supplied.recovered] d).run [] = .ok (o, claimed) ∧
        (d.edits.union supplied.recovered).checkClaimed claimed = .ok () := by
  show Run.complete (d.edits.union supplied.recovered) ((Run.ofRenderer renderer context s
    removeMarkers supplied.overrides).outermost [d.edits.union supplied.recovered] d) = .ok o ↔ _
  exact Run.complete_eq_ok_iff

/-- **What a generation in directive mode comes to**: the outermost blocks are resolved to contents that
fit on their lines, the contents are written, and no edit at hand is lost. -/
theorem generate_eq_ok_iff (hd : parse s t = .ok d) {renderer : Renderer} {context : Context}
    {removeMarkers : Bool} {supplied : Supplied} {o : Text} :
    generate renderer context s .directive removeMarkers d supplied = .ok o ↔
      ∃ cs claimed,
        (let run := Run.ofRenderer renderer context s removeMarkers supplied.overrides
        (Run.contents (run.resolve (run.evaluate s.maxDepth) t [d.edits.union supplied.recovered])
          d.outermost).run [] = .ok (cs, claimed)) ∧
        (∀ p ∈ d.outermost.zip cs, p.1.isInline → Text.newline ∉ p.2.getD []) ∧
        o = t.patch 0 (List.zipWith (Block.patched removeMarkers) d.outermost cs) ∧
        (d.edits.union supplied.recovered).checkClaimed claimed = .ok () := by
  rw [generate_directive_eq_ok_iff]
  constructor
  · rintro ⟨claimed, hrun, hcheck⟩
    obtain ⟨cs, hcs, hlines, ho⟩ := (directive_eq_ok_iff hd).1 hrun
    exact ⟨cs, claimed, hcs, hlines, ho, hcheck⟩
  · rintro ⟨cs, claimed, hcs, hlines, ho, hcheck⟩
    exact ⟨claimed, (directive_eq_ok_iff hd).2 ⟨cs, hcs, hlines, ho⟩, hcheck⟩

/-- **Only what stands between the markers of outermost blocks is written anew.** The spans of
blocks of one depth are in order. If a document is regenerated, each outermost block is resolved to
a content, and the output is the source with the stretch between the two spans of each block
replaced by that content – with its padding, or indented line by line, or by nothing if there is
none. With markers removed the spans are left out too, and so is the padding. The edits at hand may
be any, those of the document itself included, whose bodies can be set from outside. -/
theorem generate_eq_patch (hd : parse s t = .ok d) :
    (∀ k, (∀ b ∈ d.blocks.filter (·.depth = k), b.openSpan.start ≤ b.openSpan.stop ∧
        b.openSpan.stop ≤ b.endSpan.start ∧ b.endSpan.start ≤ b.endSpan.stop ∧
        b.endSpan.stop ≤ t.length) ∧
      (d.blocks.filter (·.depth = k)).Pairwise fun b c => b.endSpan.stop ≤ c.openSpan.start) ∧
    ∀ (renderer : Renderer) (context : Context) (removeMarkers : Bool) (edits : Edits)
      (supplied : Supplied) (o : Text),
      generate renderer context s .directive removeMarkers { d with edits } supplied = .ok o →
      ∃ cs claimed, cs.length = d.outermost.length ∧
        (let run := Run.ofRenderer renderer context s removeMarkers supplied.overrides
        (Run.contents (run.resolve (run.evaluate s.maxDepth) t [edits.union supplied.recovered])
          d.outermost).run [] = .ok (cs, claimed)) ∧
        o = t.patch 0 (List.zipWith (Block.patched removeMarkers) d.outermost cs) := by
  refine ⟨fun k => spans_ordered hd k, ?_⟩
  intro renderer context removeMarkers edits supplied o h
  obtain ⟨claimed, hrun, -⟩ := generate_directive_eq_ok_iff.1 h
  obtain ⟨cs, hcs, -, ho⟩ := (directive_eq_ok_iff hd).1 hrun
  exact ⟨cs, claimed, Run.length_contents hcs, hcs, ho⟩

/-- A document of one inline block, whose body has padding on both sides. -/
def padded : Document :=
  ((parse .standard "[[[ a ]]] b [[[ end ]]]").toOption).getD { source := [], marks := [], edits := [] }

/-- Regenerated by a renderer that answers with the header, the document keeps everything up to its
first space. -/
theorem generate_eq_patch_padded :
    parse .standard "[[[ a ]]] b [[[ end ]]]" = .ok padded ∧
      ∃ cs claimed, cs.length = 1 ∧
        (let run := Run.ofRenderer (fun t _ => .ok t) [] .standard false []
        (Run.contents (run.resolve (run.evaluate 100) padded.source [[]]) padded.outermost).run []
          = .ok (cs, claimed)) ∧
        ("[[[ a ]]] a [[[ end ]]]" : Text)
          = Text.patch padded.source 0 (List.zipWith (Block.patched false) padded.outermost cs) :=
  have hd : parse .standard "[[[ a ]]] b [[[ end ]]]" = .ok padded := by rfl
  ⟨hd, (generate_eq_patch hd).2 (fun t _ => .ok t) [] false [] {} _ (by rfl)⟩

/-- With markers removed the padding of an inline body is not written: the same concatenation with
the spans left out would have one space on either side. -/
theorem not_generate_eq_patch_with_padding :
    ¬ ∀ (s : Settings) (t : Text) (d : Document), parse s t = .ok d →
      ∀ (renderer : Renderer) (context : Context) (supplied : Supplied) (o : Text),
        generate renderer context s .directive true d supplied = .ok o →
        ∃ cs claimed,
          (let run := Run.ofRenderer renderer context s true supplied.overrides
          (Run.contents
            (run.resolve (run.evaluate s.maxDepth) t [d.edits.union supplied.recovered])
            d.outermost).run [] = .ok (cs, claimed)) ∧
          o = t.patch 0 (List.zipWith (fun b content? =>
            (⟨b.openSpan.start, b.endSpan.stop⟩, b.rewritten [Text.space] content?))
            d.outermost cs) := by
  intro h
  obtain ⟨cs, claimed, hcs, ho⟩ := h .standard "[[[ a ]]] b [[[ end ]]]" padded (by rfl)
    (fun t _ => .ok t) [] {} ("a" : Text) (by rfl)
  have hvalue : (cs, claimed) = ([some ("a" : Text)], []) :=
    Except.ok.inj (hcs.symm.trans (by rfl))
  obtain ⟨rfl, rfl⟩ := Prod.mk.inj hvalue
  revert ho
  decide +kernel

end Document

end Regen
