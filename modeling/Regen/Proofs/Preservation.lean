import Regen.Proofs.FixedPoint
import Regen.Proofs.Readback

/-!
# What becomes of a body

The body of an edit is put back on every run, so it has to come out of a run as it went in. On its way it is
taken from its lines, indentation and all; it is resolved, where it loses a line feed at its end; and it is
written back, with the indentation and a line feed behind it. The line feed behind the body was no part
of it to begin with, so the one that is lost has been dropped a second time: a body that ends in a
line feed, which is a body followed by an empty line, comes back without it
(`Document.not_content_eq_of_generate`). This is the only thing that ever happens to a body without
markers. Every such edit is found again in the output, and its body is the same if and only if it does not
end in a line feed (`Document.content_eq_iff_of_generate`).
-/

namespace Regen

open Text (newline)

/-- **An edit whose body has no marker gets its body back**, but for a line feed at its end. -/
theorem Run.Regenerated.content_eq_chosen {run : Run} {pool : Pool} {source : Text} {bs : List Block}
    {cs : List (Option Text)} {claims : List Claim} (h : run.Regenerated pool source bs cs claims)
    (hmarkers : run.removeMarkers = false) :
    ∀ p ∈ bs.zip cs, p.1.family = .edit →
      (∀ u ∈ run.chosen pool p.1.name, u.Plain run.settings) →
      p.2 = (run.chosen pool p.1.name).map dropFinalNewline := by
  induction h with
  | nil => simp
  | bare hyield _ ih =>
    rw [List.zip_cons_cons, List.forall_mem_cons]
    refine ⟨fun hfamily _ => ?_, ih⟩
    rw [Block.name, ← hyield.eq_chosen hfamily, Option.map_none]
  | @filled pool source u b bs d cs cs' inner claims hyield hd _ _ _ _ ih =>
    rw [List.zip_cons_cons, List.forall_mem_cons]
    refine ⟨fun hfamily hplain => ?_, ih⟩
    rw [Block.name, ← hyield.eq_chosen hfamily] at hplain ⊢
    rw [settled_eq hmarkers fun hu => result_of_parse_nil (hu ▸ hd) cs',
      result_of_plain hd (hplain u rfl), Option.map_some]

/-- The text of a body that was written is what is read as the body, whether or not there is one. -/
theorem Block.Renewed.getD_content {b b' : Block} {content? : Option Text} (h : b.Renewed content? b') :
    b'.content.getD [] = content?.getD [] := by
  rw [h.content]
  split
  · rename_i hempty
    rw [hempty.1]
    rfl
  · rfl

namespace Document

variable {s : Settings} {t o : Text} {d : Document} {renderer : Renderer} {context : Context}

/-- **A body comes back but for a line feed at its end.** Every edit of the document that no block holds and
whose body has no opener in it is an edit of the output, if all texts that are read for a block can be
refilled and suit it. Its body there is the same without the line feed at the end, so it is the same if and
only if there was none; an edit without a body has none there. -/
theorem content_eq_iff_of_generate (hs : s.Solid) (hd : parse s t = .ok d) (hrefillable : d.Refillable)
    (hreads : (Run.ofRenderer renderer context s false []).Throughout
      (fun b e => e.Refillable ∧ e.Suits b) [d.edits] t d.outermost)
    (h : generate renderer context s .directive false d {} = .ok o) :
    ∃ d', parse s o = .ok d' ∧ ∀ b ∈ d.outermost, b.family = .edit →
      (∀ x ∈ b.content, ∀ f, ¬ (s.tokens f).opener <:+: x) →
      ∃ e ∈ d'.edits, e.name = b.name ∧
        e.content.getD [] = Run.dropFinalNewline (b.content.getD []) ∧
        (e.content = b.content ↔ ∀ x ∈ b.content, x.getLast? ≠ some newline) := by
  obtain ⟨husable, -⟩ := parse_eq_ok_iff.1 hd
  rw [← Edits.union_nil d.edits] at hreads
  obtain ⟨d', cs, claims, hd', htree, hrenewed⟩ := exists_renewed hs hd hrefillable hreads h
  have hall : List.Forall₂ (fun b b' => b.family = .edit → (∀ x ∈ b.content, x.Plain s) →
      b.Renewed (b.content.map Run.dropFinalNewline) b') d.outermost d'.outermost := by
    refine Block.Renewed.forall₂ hrenewed htree.length_eq fun p hp b' hb' hfamily hplain => ?_
    have hmem := List.mem_of_mem_filter (List.of_mem_zip hp).1
    have hchosen : Run.chosen (Run.ofRenderer renderer context s false []) [d.edits.union []] p.1.name
        = p.1.content := by
      rw [Edits.union_nil, ← content_of_mem_blocks hd hmem hfamily]
      rfl
    have hcontent := htree.content_eq_chosen rfl p hp hfamily
    rw [hchosen] at hcontent
    rwa [hcontent hplain] at hb'
  refine ⟨d', hd', fun b hb hfamily hopener => ?_⟩
  obtain ⟨b', hmem, hb'⟩ := exists_rel_of_mem hall hb
  have hrenew := hb' hfamily fun x hx => (Text.plain_iff husable).2 (hopener x hx)
  refine ⟨{ source := o, block := b' }, (mem_edits_iff hd').2
    ⟨b', List.mem_of_mem_filter hmem, hrenew.opening.family.trans hfamily, rfl⟩, hrenew.opening.name,
    ?_, ?_⟩
  · show b'.content.getD [] = _
    rw [hrenew.getD_content]
    cases b.content <;> rfl
  · exact hrenew.content_eq_iff

/-- What is read for the blocks of a flat document has no markers, if the renderer writes none. -/
theorem Flat.throughout (h : d.Flat) (hd : parse s t = .ok d)
    (hsolid : ∀ f, Text.Solid (s.tokens f).opener)
    (hrender : ∀ b ∈ d.blocks, b.family = .generation → ∀ r, renderer b.opening.header context = .ok r →
      r.Plain s) :
    (Run.ofRenderer renderer context s false []).Throughout (fun b e => e.Refillable ∧ e.Suits b)
      [d.edits] t d.outermost := by
  refine .of_plain fun b hb u e hyield he => ?_
  obtain ⟨c, c', hyield⟩ := hyield
  have hu := (h.yielded hd hsolid rfl hrender hb hyield).1 u rfl
  exact ⟨hu, refillable_of_plain he hu b⟩

/-- A generation block, an edit with an empty line inside its body, and one with an empty line at the
end. -/
def spacedText : Text :=
  "[[[ a ]]] [[[ end ]]]\n <<[ b ]>>\n x\n\n y\n <<[ end ]>>\n<<[ c ]>>\nz\n\n<<[ end ]>>\n"

/-- The document of that text. -/
def spaced : Document :=
  ((parse .standard spacedText).toOption).getD { source := [], marks := [], edits := [] }

theorem content_eq_iff_of_generate_spaced :
    let o : Text :=
      "[[[ a ]]] w [[[ end ]]]\n <<[ b ]>>\n x\n \n y\n <<[ end ]>>\n<<[ c ]>>\nz\n<<[ end ]>>\n"
    generate (fun _ _ => .ok "w") [] .standard .directive false spaced {} = .ok o ∧
      ∃ d', parse .standard o = .ok d' ∧ ∀ b ∈ spaced.outermost, b.family = .edit →
        (∀ x ∈ b.content, ∀ f, ¬ (Settings.standard.tokens f).opener <:+: x) →
        ∃ e ∈ d'.edits, e.name = b.name ∧
          e.content.getD [] = Run.dropFinalNewline (b.content.getD []) ∧
          (e.content = b.content ↔ ∀ x ∈ b.content, x.getLast? ≠ some newline) := by
  intro o
  have hd : parse .standard spacedText = .ok spaced := by rfl
  have ho : generate (fun _ _ => .ok "w") [] .standard .directive false spaced {} = .ok o := by
    decide +kernel
  have hflat : spaced.Flat := ⟨by decide +kernel, by decide +kernel, by decide +kernel⟩
  obtain ⟨husable, -⟩ := parse_eq_ok_iff.1 hd
  refine ⟨ho, content_eq_iff_of_generate Settings.solid_standard hd (by decide +kernel)
    (hflat.throughout hd Settings.solid_standard.opener ?_) ho⟩
  rintro b - - r ⟨⟩
  exact (Text.plain_iff husable).2 fun f => by cases f <;> decide

/-- An edit with an empty line at the end of its body. -/
def trailing : Document :=
  ((parse .standard "<<[ a ]>>\nx\n\n<<[ end ]>>\n").toOption).getD
    { source := [], marks := [], edits := [] }

/-- What comes of it. -/
def trailed : Document :=
  ((parse .standard "<<[ a ]>>\nx\n<<[ end ]>>\n").toOption).getD
    { source := [], marks := [], edits := [] }

/-- **A body that ends in an empty line does not come back.** The line feed behind the body is taken off when
the body is read, and a line feed at its end when it is resolved, but only one is written. -/
theorem not_content_eq_of_generate :
    ¬ ∀ (s : Settings) (t : Text) (d : Document) (renderer : Renderer) (context : Context) (o : Text)
      (d' : Document), parse s t = .ok d → generate renderer context s .directive false d {} = .ok o →
      parse s o = .ok d' → ∀ b ∈ d.outermost, b.family = .edit →
      (∀ x ∈ b.content, ∀ f, ¬ (s.tokens f).opener <:+: x) →
      ∃ e ∈ d'.edits, e.name = b.name ∧ e.content = b.content := by
  intro h
  have hd : parse .standard "<<[ a ]>>\nx\n\n<<[ end ]>>\n" = .ok trailing := by rfl
  have hd' : parse .standard "<<[ a ]>>\nx\n<<[ end ]>>\n" = .ok trailed := by rfl
  have ho : generate (fun header _ => .ok header) [] .standard .directive false trailing {}
      = .ok "<<[ a ]>>\nx\n<<[ end ]>>\n" := by decide +kernel
  obtain ⟨b, hb⟩ := List.exists_mem_of_ne_nil trailing.outermost (by decide +kernel)
  have hblock : ∀ b ∈ trailing.outermost, b.family = .edit ∧ b.content = some "x\n" := by
    decide +kernel
  obtain ⟨hfamily, hcontent⟩ := hblock b hb
  obtain ⟨e, he, -, heq⟩ := h _ _ _ _ _ _ _ hd ho hd' b hb hfamily fun x hx f => by
    obtain rfl := Option.some.inj (hx.symm.trans hcontent)
    cases f <;> decide
  have hlost : ∀ e ∈ trailed.edits, e.content = some "x" := by decide +kernel
  rw [hlost e he, hcontent] at heq
  exact absurd heq (by decide)

end Document

end Regen
