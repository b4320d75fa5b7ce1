import Regen.Proofs.PlainContent
import Regen.Proofs.Regeneration

/-!
# What was written is read back

Every text that a generation writes into a block has been read before it is written. Yet the block
asks more of it than reading does. Two blocks that share a line may stand side by side in a text, but not
inside a block of whole lines, and an edit may be what another edit is put back with, but may not
stand directly inside it. The generation does not check that, so its output may be a text that is not read
(`Document.not_parse_of_generate`).

If every text that is read for a block suits it, the output is read again, and its outermost
blocks are those of the document (`Document.parse_of_generate`). This goes up the tree of the generation:
the contents of the blocks of a text fit into their cells (`Run.Regenerated.exists_refilled`), so
what the text is regenerated to is read again with alike outermost blocks, and therefore suits whatever
the text suits.
-/

namespace Regen

open Lexeme (ofText textOf markersFrom Lexed)
open Text (space newline)
open Pairing (onSameLine)

/-! ## Texts that are written into blocks -/

/-- **A document that can be refilled**: other contents can be written into its blocks without a header
being changed or torn apart. -/
structure Document.Refillable (d : Document) : Prop where
  /-- No span of an outermost block holds a part of another marker. -/
  apart : Mark.SpansApart d.marks
  /-- No header of several lines is moved. -/
  steady : Mark.Steady d.source none d.outermost
  /-- The two markers of an outermost block are of one family, so nothing need be between them. -/
  family : ∀ b ∈ d.outermost, b.opening.family = b.ending.family

instance (d : Document) : Decidable d.Refillable :=
  decidable_of_iff (Mark.SpansApart d.marks ∧ Mark.Steady d.source none d.outermost ∧
    ∀ b ∈ d.outermost, b.opening.family = b.ending.family)
    ⟨fun h => ⟨h.1, h.2.1, h.2.2⟩, fun h => ⟨h.apart, h.steady, h.family⟩⟩

/-- A line feed at the end of a text that is read is in no marker, so the text is lexed without it. -/
theorem Document.exists_lexed_dropFinalNewline {s : Settings} {t : Text} {d : Document} (hs : s.Solid)
    (hd : parse s t = .ok d) :
    ∃ ls z, Lexed s ls ∧ textOf s ls = Run.dropFinalNewline t ∧ t = textOf s ls ++ z ∧
      markersFrom s [] ls [] = some (d.marks.map Mark.marker) := by
  have husable := usable_of_parse hd
  obtain ⟨ls, hlexed, rfl, hread⟩ := exists_lexed_of_parse hd
  unfold Run.dropFinalNewline
  split
  · rename_i hlast
    obtain rfl | ⟨ls, l, rfl⟩ := ls.eq_nil_or_concat
    · cases hlast
    · rw [List.concat_eq_append] at hlexed hlast hread ⊢
      obtain ⟨ms, ms', hms, hms', hmarks⟩ := Lexeme.markersFrom_append.1 hread
      cases l with
      | byte b =>
        obtain rfl : ms' = [] := by cases hms'; rfl
        rw [List.append_nil] at hmarks
        refine ⟨ls, [b], hlexed.of_append_left, by simp, by simp, ?_⟩
        rw [hmarks, ← hms]
        exact Lexeme.markersFrom_congr_after (fun f => (hs.opener f).newline_notMem) husable.closer ..
      | marker f raw =>
        -- a closer is solid, so a text that ends in a marker ends in no line feed
        refine absurd (List.mem_of_getLast? ?_) (hs.closer f).newline_notMem
        have htext : textOf s (ls ++ [.marker f raw])
            = textOf s ls ++ (s.tokens f).opener ++ raw ++ (s.tokens f).closer := by
          simp [Lexeme.text]
        rwa [htext, List.getLast?_append_of_ne_nil _ (husable.closer f)] at hlast
  · exact ⟨ls, [], hlexed, rfl, by simp, hread⟩

/-- **A text that is read and suits a block can be written into it**, without the line feed at its
end. -/
theorem Document.Suits.exists_region {s : Settings} {t : Text} {d : Document} {b : Block}
    (h : d.Suits b) (hs : s.Solid) (hd : parse s t = .ok d)
    (hfamily : b.opening.family = b.ending.family)
    (hline : b.isInline → newline ∉ Run.dropFinalNewline t) :
    ∃ region, textOf s region = b.rewritten [space] (some (Run.dropFinalNewline t)) ∧
      Lexed s region ∧ Fits s b region (d.edits.map EditBlock.name) := by
  have husable := usable_of_parse hd
  have houter := outermost_of_parse hd
  obtain rfl := source_of_parse hd
  obtain ⟨ls, z, hlexed, htext, ht, hread⟩ := exists_lexed_dropFinalNewline hs hd
  refine ⟨b.refilled (some ls), ?_, ?_, ?_⟩
  · rw [Block.textOf_refilled hs, Option.map_some, htext]
  · refine Block.lexed_refilled hs (fun f => ⟨husable.opener f, husable.closer f⟩) ?_
    rintro _ ⟨⟩
    exact hlexed
  · rw [edits_map_name hd]
    exact .refilled hs husable.closer houter ht hread (htext ▸ hline) h hfamily

/-- **A document whose outermost blocks are renewed suits what it suited.** -/
theorem Document.Suits.renewed {d d' : Document} {b : Block} {cs : List (Option Text)}
    (h : d.Suits b)
    (hrenewed : List.Forall₂ (fun p b' => p.1.Renewed p.2 b') (d.outermost.zip cs) d'.outermost)
    (hchain : d.outermost.IsChain (fun a c => onSameLine d.source a.ending c.opening = false) →
      d'.outermost.IsChain fun a c => onSameLine d'.source a.ending c.opening = false) :
    d'.Suits b := by
  refine ⟨fun hlines => hchain (h.lines hlines), fun hedit c' hc' => ?_⟩
  obtain ⟨p, hp, hc⟩ := exists_rel_of_mem hrenewed.flip hc'
  rw [Block.family, hc.opening.family]
  exact h.edits hedit _ (List.of_mem_zip hp).1

/-- A text without markers can be refilled, and suits every block. -/
theorem Document.refillable_of_plain {s : Settings} {t : Text} {d : Document} (hd : parse s t = .ok d)
    (ht : t.Plain s) (b : Block) : d.Refillable ∧ d.Suits b := by
  have husable := usable_of_parse hd
  rw [Run.parse_of_plain husable ht] at hd
  obtain rfl := Except.ok.inj hd
  exact ⟨⟨by simp [Mark.SpansApart], ⟨.nil, by simp [outermost, blocks]⟩,
    by simp [outermost, blocks]⟩, ⟨fun _ => .nil, fun _ => by simp [outermost, blocks]⟩⟩

namespace Run

variable {run : Run} {pool : Pool} {t : Text} {d : Document} {cs : List (Option Text)}

/-- **What a document is regenerated to is read again** if the contents of its blocks fit into
cells. -/
theorem parse_result (hs : run.settings.Solid) (hmarkers : run.removeMarkers = false)
    (hd : Document.parse run.settings t = .ok d) (hrefillable : d.Refillable) {names : List Text}
    (hnames : names.Nodup)
    (hcells : ∀ {pre : Text} {cells : List Cell}, Celled run.settings pre cells d.outermost →
      ∃ cells', Refilled run.settings cells d.outermost cs cells' ∧
        (∀ c ∈ cells', Lexed run.settings c.region) ∧ Fitted run.settings d.outermost cells' names) :
    ∃ d', Document.parse run.settings (run.result d cs) = .ok d' ∧
      List.Forall₂ (fun p b' => p.1.Renewed p.2 b') (d.outermost.zip cs) d'.outermost ∧
      d'.edits.map EditBlock.name = names ∧ ∀ b, d.Suits b → d'.Suits b := by
  obtain ⟨cells, tail, hcut⟩ :=
    Document.exists_isCut hd (fun f => (hs.opener f).newline_notMem) hrefillable.apart
  obtain ⟨cells', hrefilled, hregions, hfitted⟩ := hcells hcut.cut.celled
  obtain ⟨d', hd', -, hrenewed, hnames', hchain⟩ :=
    hcut.refill hd hs.opener hrefillable.steady hrefilled hregions hfitted hnames
  rw [result, hmarkers]
  exact ⟨d', hd', hrenewed, hnames', fun b hb => hb.renewed hrenewed hchain⟩

/-- **The contents of blocks can be written into their cells**, if all texts that are read for a block can
be refilled and suit it. The edits that are then opened are those that were asked for. -/
theorem Regenerated.exists_refilled {source : Text} {bs : List Block} {claims : List Claim}
    (hs : run.settings.Solid) (husable : Document.Usable run.settings)
    (hmarkers : run.removeMarkers = false) (h : run.Regenerated pool source bs cs claims)
    (hopens : ∀ b ∈ bs, b.opening.isEnd = false)
    (hfamily : ∀ b ∈ bs, b.opening.family = b.ending.family)
    (hreads : run.Throughout (fun b d => d.Refillable ∧ d.Suits b) pool source bs)
    (hlines : ∀ p ∈ bs.zip cs, p.1.isInline → newline ∉ p.2.getD [])
    (hnodup : (claims.map Prod.fst).Nodup) {pre : Text} {cells : List Cell}
    (hcelled : Celled run.settings pre cells bs) :
    ∃ cells', Refilled run.settings cells bs cs cells' ∧
      (∀ c ∈ cells', Lexed run.settings c.region) ∧
      Fitted run.settings bs cells' (claims.map Prod.fst) := by
  induction h generalizing pre cells with
  | nil =>
    cases hcelled
    exact ⟨[], .nil, by simp, .nil⟩
  | @bare pool source b bs cs claims _ _ ih =>
    obtain _ | @⟨_, c, _, cells, _, hholds, hcelled⟩ := hcelled
    rw [List.forall_mem_cons] at hopens hfamily
    rw [List.zip_cons_cons, List.forall_mem_cons] at hlines
    rw [List.map_append] at hnodup ⊢
    obtain ⟨cells', hrefilled, hlexed, hfitted⟩ := ih hopens.2 hfamily.2
      (Throughout.cons_iff.1 hreads).2 hlines.2 (List.nodup_append.1 hnodup).2.1 hcelled
    refine ⟨{ c with region := ofText (b.rewritten [space] none) } :: cells',
      .cons (Lexeme.textOf_ofText ..) hrefilled, List.forall_mem_cons.2 ⟨?_, hlexed⟩, ?_⟩
    · exact Lexeme.lexed_ofText_iff.2 (Block.plain_rewritten husable hs.opener (by simpa using isGap_space) (by simp))
    · have hcons := Fitted.cons (c := { c with region := ofText (b.rewritten [space] none) })
        (.rewritten hfamily.1 hlines.1) hfitted
      rwa [List.append_nil, ← map_fst_asked pool hopens.1] at hcons
  | @filled pool source u b bs d cs cs' inner claims hyield hd hinner hinnerLines _ ihInner ih =>
    obtain _ | @⟨_, c, _, cells, _, hholds, hcelled⟩ := hcelled
    rw [List.forall_mem_cons] at hopens hfamily
    rw [settled_eq hmarkers fun hu => result_of_parse_nil (hu ▸ hd) cs'] at hlines ⊢
    rw [List.zip_cons_cons, List.forall_mem_cons] at hlines
    rw [List.map_append, List.map_append] at hnodup ⊢
    obtain ⟨hfront, hnodupRest, -⟩ := List.nodup_append.1 hnodup
    have hnodupInner := (List.nodup_append.1 hfront).2.1
    obtain ⟨hhere, hbehind⟩ := Throughout.cons_iff.1 hreads
    obtain ⟨⟨hrefillable, hsuits⟩, hinside⟩ := (Throughout.singleton_iff hyield hd).1 hhere
    -- what the yield is regenerated to is read again, and suits the block as the yield does
    obtain ⟨d', hd', -, hnames, hsuits'⟩ := parse_result hs hmarkers hd hrefillable hnodupInner
      (ihInner (Document.opens_of_parse hd) hrefillable.family hinside hinnerLines hnodupInner)
    obtain ⟨region, htext, hregion, hfits⟩ :=
      (hsuits' b hsuits).exists_region hs hd' hfamily.1 hlines.1
    obtain ⟨cells', hrefilled, hlexed, hfitted⟩ := ih hopens.2 hfamily.2 hbehind hlines.2
      hnodupRest hcelled
    refine ⟨{ c with region } :: cells', .cons htext hrefilled,
      List.forall_mem_cons.2 ⟨hregion, hlexed⟩, ?_⟩
    have hcons := Fitted.cons (c := { c with region }) hfits hfitted
    rwa [hnames, ← map_fst_asked pool hopens.1] at hcons

end Run

namespace Document

variable {s : Settings} {t o : Text} {d : Document} {edits : Edits} {supplied : Supplied}
  {renderer : Renderer} {context : Context}

/-- **The output of a generation is read again** if all texts that are read for a block can be refilled and
suit it. Its outermost blocks are those of the document, renewed with the contents of the tree. -/
theorem exists_renewed (hs : s.Solid) (hd : parse s t = .ok d) (hrefillable : d.Refillable)
    (hreads : (Run.ofRenderer renderer context s false supplied.overrides).Throughout
      (fun b e => e.Refillable ∧ e.Suits b) [edits.union supplied.recovered] t d.outermost)
    (h : generate renderer context s .directive false { d with edits } supplied = .ok o) :
    let run := Run.ofRenderer renderer context s false supplied.overrides
    ∃ d' cs claims, parse s o = .ok d' ∧
      run.Regenerated [edits.union supplied.recovered] t d.outermost cs claims ∧
      List.Forall₂ (fun p b' => p.1.Renewed p.2 b') (d.outermost.zip cs) d'.outermost := by
  intro run
  have husable := usable_of_parse hd
  obtain ⟨claimed, hrun, -⟩ := generate_directive_eq_ok_iff.1 h
  -- the edits of the document are among those at hand, and are not looked at otherwise
  obtain ⟨cs, claims, htree, hlines, rfl, -, hnodup⟩ := run.regenerated_of_outermost (d := d) hd hrun
  obtain ⟨d', hd', hrenewed, -⟩ := Run.parse_result hs rfl hd hrefillable hnodup
    (htree.exists_refilled hs husable rfl (opens_of_parse hd) hrefillable.family hreads hlines hnodup)
  exact ⟨d', cs, claims, hd', htree, hrenewed⟩

/-- **What was written is read back.** Openers and closers hold no blanks, other contents can be written
into the blocks of the document and of every text that is read for one, and each such text suits the
block. Then the output of a generation that keeps the markers is read again, and its outermost blocks
have the markers and the layout of those of the document. Any edits may be at hand, altered or from
outside. -/
theorem parse_of_generate (hs : s.Solid) (hd : parse s t = .ok d) (hrefillable : d.Refillable)
    (hreads : (Run.ofRenderer renderer context s false supplied.overrides).Throughout
      (fun b e => e.Refillable ∧ e.Suits b) [edits.union supplied.recovered] t d.outermost)
    (h : generate renderer context s .directive false { d with edits } supplied = .ok o) :
    ∃ d', parse s o = .ok d' ∧
      List.Forall₂ (fun b b' => b.opening.Alike b'.opening ∧ b.ending.Alike b'.ending ∧
        b'.isInline = b.isInline) d.outermost d'.outermost := by
  obtain ⟨d', cs, claims, hd', htree, hrenewed⟩ := exists_renewed hs hd hrefillable hreads h
  refine ⟨d', hd', Block.Renewed.forall₂ hrenewed htree.length_eq fun p _ b' hb' => ?_⟩
  exact ⟨hb'.opening, hb'.ending, hb'.isInline⟩

/-- A generation block of whole lines. -/
def hosting : Document :=
  ((parse .standard "[[[ g ]]]\n[[[ end ]]]\n").toOption).getD { source := [], marks := [], edits := [] }

/-- Two blocks on lines of their own. -/
def hostedBlocks : Document :=
  ((parse .standard "[[[ a ]]] [[[ end ]]]\n[[[ b ]]] [[[ end ]]]\n").toOption).getD
    { source := [], marks := [], edits := [] }

/-- Renders one header to a text, and every other to itself. -/
def hosted (u : Text) : Renderer := fun header _ => .ok (if header = "g" then u else header)

/-- The header of the block is rendered to two blocks on lines of their own. -/
theorem parse_of_generate_hosted :
    let o : Text := "[[[ g ]]]\n[[[ a ]]] a [[[ end ]]]\n[[[ b ]]] b [[[ end ]]]\n[[[ end ]]]\n"
    generate (hosted "[[[ a ]]] [[[ end ]]]\n[[[ b ]]] [[[ end ]]]\n") [] .standard .directive false
        hosting {} = .ok o ∧
      ∃ d', parse .standard o = .ok d' ∧
        List.Forall₂ (fun b b' => b.opening.Alike b'.opening ∧ b.ending.Alike b'.ending ∧
          b'.isInline = b.isInline) hosting.outermost d'.outermost := by
  intro o
  have hd : parse .standard "[[[ g ]]]\n[[[ end ]]]\n" = .ok hosting := by rfl
  have hblocks : parse .standard "[[[ a ]]] [[[ end ]]]\n[[[ b ]]] [[[ end ]]]\n"
      = .ok hostedBlocks := by rfl
  have ho : generate (hosted "[[[ a ]]] [[[ end ]]]\n[[[ b ]]] [[[ end ]]]\n") [] .standard .directive
      false hosting {} = .ok o := by decide +kernel
  refine ⟨ho, parse_of_generate Settings.solid_standard hd (by decide +kernel) ?_ ho⟩
  refine Run.Throughout.iff_forall.2 fun b hb u e hyield he => ?_
  have hg : ∀ b ∈ hosting.outermost, b.opening.family = .generation ∧ b.opening.header = "g" ∧
      hostedBlocks.Suits b := by decide +kernel
  obtain ⟨hfamily, hheader, hsuits⟩ := hg b hb
  have hu := hyield.render_eq hfamily
  rw [hheader] at hu
  obtain rfl := Except.ok.inj hu
  obtain rfl := Except.ok.inj (hblocks.symm.trans he)
  refine ⟨⟨by decide +kernel, hsuits⟩, .of_plain fun c hc v f hyield hf => ?_⟩
  have hab : ∀ c ∈ hostedBlocks.outermost, c.opening.family = .generation ∧
      (c.opening.header = "a" ∨ c.opening.header = "b") := by decide +kernel
  obtain ⟨hfamily, hheader⟩ := hab c hc
  have hv := hyield.render_eq hfamily
  have hplain : v.Plain .standard := by
    obtain ⟨husable, -⟩ := parse_eq_ok_iff.1 hf
    refine (Text.plain_iff husable).2 fun f => ?_
    rcases hheader with h | h <;> rw [h] at hv <;> cases hv <;> cases f <;> decide
  exact ⟨hplain, refillable_of_plain hf hplain c⟩

/-- **What was written is not always read back.** The header of a block of whole lines is rendered to two
blocks that share a line. They are read, regenerated and written into the block, where two blocks
may not share a line. -/
theorem not_parse_of_generate :
    ¬ ∀ (s : Settings) (t : Text) (d : Document) (renderer : Renderer) (context : Context)
      (supplied : Supplied) (o : Text), parse s t = .ok d →
      generate renderer context s .directive false d supplied = .ok o → ∃ d', parse s o = .ok d' := by
  intro h
  have hd : parse .standard "[[[ g ]]]\n[[[ end ]]]\n" = .ok hosting := by rfl
  obtain ⟨d', hd'⟩ := h .standard _ _ (hosted "[[[ a ]]] [[[ end ]]] [[[ b ]]] [[[ end ]]]") [] {}
    "[[[ g ]]]\n[[[ a ]]] a [[[ end ]]] [[[ b ]]] b [[[ end ]]]\n[[[ end ]]]\n" hd (by decide +kernel)
  have hfails : (parse .standard
      "[[[ g ]]]\n[[[ a ]]] a [[[ end ]]] [[[ b ]]] b [[[ end ]]]\n[[[ end ]]]\n").toOption.isNone
      = true := by
    decide +kernel
  rw [hd'] at hfails
  cases hfails

end Document

end Regen
