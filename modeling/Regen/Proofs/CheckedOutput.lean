import Regen.Proofs.CheckedBlocks
import Regen.Proofs.Recovery
import Regen.Proofs.Restoring

/-!
# Checked generation

The two modes in which output is generated come down to the regeneration of blocks. In document mode the generation
blocks are held aside first: what lies between them is cut out of the text, and where the placeholders are found again,
the blocks are. All ends are those of spans of marks (`Holding.Cut`), and a placeholder is a token, so that replacing it
leaves the text one that is written in characters (`Text.Encoded.replaceFirst`).

With that every input has been dealt with (`Checked.never_out_of_range`): whatever the text, the tokens, the renderer
and the bodies from outside are, as long as they are written in characters, nothing that is done with them is out of
range.
-/

namespace Regen

namespace Checked

/-! ## Holding generation blocks aside -/

/-- Deals with one mark of a text whose generation blocks are being held aside. -/
def hold (t : Text) (h : Holding) (mark : Mark) : Option Holding :=
  match mark.marker.family, mark with
  | .generation, .opening b =>
    if h.nesting = 0 then do
      let front ← span t h.offset b.openSpan.start
      return { h with
        nesting := 1
        buffer := h.buffer ++ front ++ placeholder h.held.length
        held := ⟨b.openSpan.start, b.openSpan.start⟩ :: h.held }
    else some { h with nesting := h.nesting + 1 }
  | .generation, .ending b =>
    if h.nesting ≤ 1 then
      some { h with nesting := 0, held := Holding.extendLast b.endSpan.stop h.held, offset := b.endSpan.stop }
    else some { h with nesting := h.nesting - 1 }
  | .edit, .opening b => some (if h.nesting = 0 then { h with freed := b.name :: h.freed } else h)
  | .edit, .ending b =>
    if h.nesting = 0 then do
      let part ← span t h.offset b.endSpan.stop
      return { h with buffer := h.buffer ++ part, offset := b.endSpan.stop }
    else some h

/-- Deals with a number of marks. -/
def holdAll (t : Text) : Holding → List Mark → Option Holding
  | h, [] => some h
  | h, mark :: rest => do
    let h ← hold t h mark
    holdAll t h rest

/-- Deals with all marks of a document and with the rest of its text. -/
def holdDocument (d : Document) : Option Holding := do
  let h ← holdAll d.source {} d.marks
  let rest ← span d.source h.offset d.source.length
  return { h with buffer := h.buffer ++ rest }

/-- Puts the blocks back into a rendered text. -/
def restore (source : Text) : (n : Nat) → List Span → (rendered : Text) → Option Text
  | _, [], rendered => some rendered
  | n, s :: rest, rendered => do
    let block ← span source s.start s.stop
    restore source (n + 1) rest (Text.replaceFirst (placeholder n) block rendered)

/-- The text of a document as it is handed over to be regenerated in document mode. -/
def renderedDocument (run : Run) (d : Document) (h : Holding) : Guarded Text :=
  match run.render h.buffer with
  | .ok rendered => liftM (restore d.source 0 h.held.reverse rendered)
  | .error e => answered (fail (.template e))

end Checked

/-- **A text whose blocks can be held aside**: it has been dealt with up to an offset that lies between characters, and
so do the ends of the blocks. -/
structure Holding.Cut (t : Text) (h : Holding) : Prop where
  /-- The offset does. -/
  offset : t.isCharStart h.offset = true
  /-- The ends of the blocks do. -/
  held : ∀ s ∈ h.held, t.isCharStart s.start = true ∧ t.isCharStart s.stop = true

namespace Text

/-- A replacement takes the place of one occurrence, if there is one. -/
theorem replaceFirst_cases (token r : Text) (t : Text) :
    replaceFirst token r t = t ∨ ∃ x z, t = x ++ token ++ z ∧ replaceFirst token r t = x ++ r ++ z := by
  induction t with
  | nil =>
    rw [replaceFirst]
    cases token with
    | nil => exact .inr ⟨[], [], rfl, by simp⟩
    | cons b token => exact .inl rfl
  | cons b t ih =>
    rw [replaceFirst]
    split
    next h =>
      obtain ⟨z, hz⟩ := List.isPrefixOf_iff_prefix.1 h
      exact .inr ⟨[], z, by simp [hz], by rw [← hz, List.drop_left, List.nil_append]⟩
    next =>
      rcases ih with ih | ⟨x, z, rfl, ih⟩
      · exact .inl (by rw [ih])
      · exact .inr ⟨b :: x, z, rfl, by rw [ih]; rfl⟩

/-- A text stays one that is written in characters when a token in it is replaced. -/
theorem Encoded.replaceFirst {token r t : Text} (ht : t.Encoded) (htoken : token.Encoded) (hne : token ≠ [])
    (hr : r.Encoded) : (Text.replaceFirst token r t).Encoded := by
  rcases replaceFirst_cases token r t with h | ⟨x, z, rfl, h⟩
  · rwa [h]
  · obtain ⟨hx, hz⟩ := ht.of_token htoken hne
    rw [h]
    exact (hx.append hr).append hz

end Text

namespace Checked

section

variable {t : Text}

theorem hold_eq {h : Holding} {mark : Mark} (hh : h.Cut t) (hmark : mark.block.Cut t) :
    hold t h mark = some (Holding.step t h mark) ∧ (Holding.step t h mark).Cut t := by
  cases mark with
  | opening b =>
    replace hmark : b.Cut t := hmark
    cases hfamily : b.opening.family with
    | generation =>
      simp only [hold, Holding.step, Mark.marker, Mark.span, hfamily, span_eq_extract hh.offset hmark.openStart]
      split
      · exact ⟨rfl, hh.offset, List.forall_mem_cons.2 ⟨⟨hmark.openStart, hmark.openStart⟩, hh.held⟩⟩
      · exact ⟨rfl, hh.offset, hh.held⟩
    | edit =>
      simp only [hold, Holding.step, Mark.marker, hfamily, true_and]
      split
      · exact ⟨hh.offset, hh.held⟩
      · exact hh
  | ending b =>
    replace hmark : b.Cut t := hmark
    cases hfamily : b.ending.family with
    | generation =>
      simp only [hold, Holding.step, Mark.marker, Mark.span, hfamily]
      split
      · refine ⟨rfl, hmark.endStop, ?_⟩
        have hheld := hh.held
        cases hlast : h.held with
        | nil => simp [Holding.extendLast]
        | cons s rest =>
          rw [hlast, List.forall_mem_cons] at hheld
          exact List.forall_mem_cons.2 ⟨⟨hheld.1.1, hmark.endStop⟩, hheld.2⟩
      · exact ⟨rfl, hh.offset, hh.held⟩
    | edit =>
      simp only [hold, Holding.step, Mark.marker, Mark.span, hfamily, span_eq_extract hh.offset hmark.endStop]
      split
      · exact ⟨rfl, hmark.endStop, hh.held⟩
      · exact ⟨rfl, hh⟩

theorem holdAll_eq {marks : List Mark} {h : Holding} (hh : h.Cut t) (hmarks : ∀ m ∈ marks, m.block.Cut t) :
    holdAll t h marks = some (marks.foldl (Holding.step t) h) ∧ (marks.foldl (Holding.step t) h).Cut t := by
  induction marks generalizing h with
  | nil => exact ⟨rfl, hh⟩
  | cons mark marks ih =>
    obtain ⟨hmark, hmarks⟩ := List.forall_mem_cons.1 hmarks
    obtain ⟨hhold, hcut⟩ := hold_eq hh hmark
    rw [holdAll, hhold]
    exact ih hcut hmarks

/-- **Holding blocks aside is never out of range.** -/
theorem holdDocument_eq {d : Document} (hd : d.Cut) :
    holdDocument d = some (Holding.ofDocument d) ∧ (Holding.ofDocument d).Cut d.source := by
  have hstart : Holding.Cut d.source {} := ⟨hd.source.isCharStart_zero, by simp⟩
  obtain ⟨hall, hcut⟩ := holdAll_eq hstart hd.blocks
  have hrest := extract_length d.source (d.marks.foldl (Holding.step d.source) {}).offset
  rw [holdDocument, hall, Option.bind_eq_bind, Option.bind_some,
    span_eq_extract hcut.offset d.source.isCharStart_length, hrest]
  exact ⟨rfl, hcut.offset, hcut.held⟩

/-- **Putting blocks back is never out of range**, and what comes of it is written in characters. -/
theorem restore_eq {source : Text} (hsource : source.Encoded) {spans : List Span}
    (hspans : ∀ s ∈ spans, source.isCharStart s.start = true ∧ source.isCharStart s.stop = true) (n : Nat)
    {rendered : Text} (hrendered : rendered.Encoded) :
    restore source n spans rendered = some (Holding.restore source n spans rendered) ∧
      (Holding.restore source n spans rendered).Encoded := by
  induction spans generalizing n rendered with
  | nil => exact ⟨rfl, hrendered⟩
  | cons s spans ih =>
    obtain ⟨⟨hstart, hstop⟩, hspans⟩ := List.forall_mem_cons.1 hspans
    rw [restore, span_eq_extract hstart hstop]
    exact ih hspans (n + 1) (hrendered.replaceFirst (Text.encoded_ofString _)
      (headed_placeholder n).ne_nil (hsource.extract hstart hstop))

end

/-! ## Generating -/

/-- Checks that every edit has been asked for or may be lost. -/
def checkClaimed (edits : Edits) (claimed : List Text) : Guarded Unit :=
  match Edits.first? (edits.filter fun e => !e.mayBeLost && e.name ∉ claimed) with
  | some e =>
    failAt (.lostEdit e.block.opening.quoted)
      (locate e.source e.block.opening.openAt e.block.opening.tokens.opener.length)
  | none => return ()

/-- The outcome of a computation that begins with no edit asked for, provided that afterwards none of these edits is
lost. -/
def complete (edits : Edits) (generation : Watched Text) : Guarded Text := do
  let (output, claimed) ← generation.run []
  checkClaimed edits claimed
  return output

/-- Regenerates a document in directive mode. -/
def directiveMode (run : Run) (d : Document) (recovered : Edits) : Guarded Text :=
  let edits := d.edits.union recovered
  complete edits (outermost run [edits] d)

/-- Regenerates a document in document mode. -/
def documentMode (run : Run) (d : Document) (recovered : Edits) : Guarded Text := do
  let h ← holdDocument d
  let rendered ← renderedDocument run d h
  let edits := Edits.union (d.edits.filter (·.name ∉ h.freed)) recovered
  complete edits <|
    if rendered.isEmpty then return []
    else do
      let d' ← parse run.settings rendered
      outermost run (Pool.beneath [edits] d'.edits) d'

/-- Generates the output of a document. -/
def generate (renderer : Renderer) (context : Context) (settings : Settings) (mode : Mode) (removeMarkers : Bool)
    (d : Document) (supplied : Supplied) : Guarded Text :=
  let run : Run := { render := (renderer · context), settings, removeMarkers, overrides := supplied.overrides }
  match mode with
  | .directive => directiveMode run d supplied.recovered
  | .document => documentMode run d supplied.recovered

section

variable {run : Run} (hrun : run.Encoded) {d : Document} (hd : d.Cut) {recovered : Edits}
  (hrecovered : ∀ e ∈ recovered, e.Encoded)

/-- **Rendering a document as a whole is never out of range**, and what comes of it is written in characters. -/
theorem renderedDocument_eq (hrun : run.Encoded) (hd : d.Cut) :
    renderedDocument run d (Holding.ofDocument d) = answered (run.renderedDocument d) ∧
      ∀ rendered, run.renderedDocument d = .ok rendered → rendered.Encoded := by
  have hheld : ∀ s ∈ (Holding.ofDocument d).held.reverse,
      d.source.isCharStart s.start = true ∧ d.source.isCharStart s.stop = true := by
    simpa using (holdDocument_eq hd).2.held
  rw [renderedDocument, Run.renderedDocument]
  cases hrender : run.render (Holding.ofDocument d).buffer with
  | error e => exact ⟨rfl, fun _ h => by cases h⟩
  | ok rendered =>
    obtain ⟨hrestore, hencoded⟩ := restore_eq hd.source hheld 0 (hrun.render hrender)
    dsimp only
    rw [hrestore]
    exact ⟨rfl, fun _ h => by cases h; exact hencoded⟩

theorem checkClaimed_eq {edits : Edits} (hedits : ∀ e ∈ edits, e.Encoded) (claimed : List Text) :
    checkClaimed edits claimed = answered (edits.checkClaimed claimed) := by
  rw [checkClaimed, Edits.checkClaimed]
  cases hfirst : Edits.first? (edits.filter fun e => !e.mayBeLost && e.name ∉ claimed) with
  | none => rfl
  | some e =>
    have he := hedits e (List.mem_filter.1 (Edits.mem_of_first? hfirst)).1
    dsimp only
    rw [locate_eq he.source]
    rfl

theorem complete_eq {edits : Edits} (hedits : ∀ e ∈ edits, e.Encoded) (generation : Claiming Text) :
    complete edits (watched generation) = answered (Run.complete edits generation) := by
  show answered (generation.run []) >>= _ = _
  refine answered_bind_eq fun (output, claimed) _ => ?_
  dsimp only
  rw [checkClaimed_eq hedits]
  exact answered_bind_eq fun _ _ => rfl

include hrecovered

theorem encoded_union {edits : Edits} (hedits : ∀ e ∈ edits, e.Encoded) : ∀ e ∈ edits.union recovered, e.Encoded := by
  intro e he
  rcases List.mem_append.1 he with he | he
  · exact hedits e (List.mem_filter.1 he).1
  · exact hrecovered e he

include hrun hd

theorem directiveMode_eq : directiveMode run d recovered = answered (run.directiveMode d recovered) := by
  have hedits := encoded_union hrecovered hd.edits
  have hpool : Pool.Encoded [d.edits.union recovered] := by simpa [Pool.Encoded] using hedits
  rw [directiveMode, outermost_eq hrun hpool hd]
  exact complete_eq hedits _

theorem documentMode_eq : documentMode run d recovered = answered (run.documentMode d recovered) := by
  obtain ⟨hhold, hcut⟩ := holdDocument_eq hd
  obtain ⟨hrendered, hencoded⟩ := renderedDocument_eq hrun hd
  have hkept : ∀ e ∈ d.edits.filter (·.name ∉ (Holding.ofDocument d).freed), e.Encoded :=
    fun e he => hd.edits e (List.mem_filter.1 he).1
  have hedits := encoded_union hrecovered hkept
  rw [documentMode, hhold, lift_some_bind, Run.documentMode, hrendered]
  refine answered_bind_eq fun rendered h => ?_
  rw [← complete_eq hedits]
  refine congrArg (complete _) ?_
  split
  next => rfl
  next =>
    rw [parse_eq hrun.settings (hencoded rendered h), lift_answered]
    refine watched_bind_eq fun d' hparse => ?_
    obtain ⟨c, c', hparse⟩ := hparse
    have hd' := cut_of_parse hrun.settings (hencoded rendered h) (Claiming.run_lift_eq_ok_iff.1 hparse).1
    refine outermost_eq hrun (fun edits he => ?_) hd'
    rcases List.mem_append.1 he with he | he
    · rw [List.mem_singleton.1 he]
      exact hedits
    · rw [List.mem_singleton.1 he]
      exact hd'.edits

end

end Checked

/-! ## Every input -/

/-- **Bodies from outside that are written in characters.** -/
structure Supplied.Encoded (supplied : Supplied) : Prop where
  /-- The overrides are. -/
  overrides : ∀ p ∈ supplied.overrides, p.2.Encoded
  /-- The edits of an earlier output are. -/
  recovered : ∀ e ∈ supplied.recovered, e.Encoded

/-- **Nothing that is done with a document is out of range**: its blocks are looked at, and its output is generated,
with whatever renderer, settings and bodies from outside. -/
structure Document.InRange (d : Document) : Prop where
  /-- The bodies of its blocks are freed of their indentation. -/
  content : ∀ b ∈ d.blocks, Checked.content b = some b.content
  /-- The indentation of its blocks is written. -/
  bodyIndent : ∀ b ∈ d.blocks, Checked.bodyIndent b.opening = some b.opening.bodyIndent
  /-- The lines of its blocks are shown, with any number of lines around them. -/
  snippet : ∀ b ∈ d.blocks, ∀ before after,
    Checked.snippet d.source b before after = some (b.snippet d.source before after)
  /-- Its output is generated. -/
  generate (renderer : Renderer) (context : Context) (settings : Settings) (mode : Mode) (removeMarkers : Bool)
      (supplied : Supplied) : (∀ t rendered, renderer t context = .ok rendered → rendered.Encoded) →
    settings.Encoded → supplied.Encoded →
    Checked.generate renderer context settings mode removeMarkers d supplied
      = Checked.answered (Regen.generate renderer context settings mode removeMarkers d supplied)
  /-- Its edits can be used where the output of another document is generated. -/
  edits : ∀ e ∈ d.edits, e.Encoded

theorem Document.Cut.inRange {d : Document} (hd : d.Cut) : d.InRange := by
  have hblocks : ∀ b ∈ d.blocks, b.Cut d.source :=
    fun b hb => hd.blocks (.opening b) (Mark.opening_mem_of_mem_blocks hb)
  refine
    { content := fun b hb => (Checked.content_eq (hblocks b hb).body).1
      bodyIndent := fun b _ => Checked.bodyIndent_eq b.opening
      snippet := fun b hb before after => Checked.snippet_of_cut hd.source (hblocks b hb) before after
      generate := fun renderer context settings mode removeMarkers supplied hrender hsettings hsupplied => ?_
      edits := hd.edits }
  have hrun : Run.Encoded
      { render := (renderer · context), settings, removeMarkers, overrides := supplied.overrides } :=
    ⟨hsettings, hrender _ _, hsupplied.overrides⟩
  cases mode with
  | directive => exact Checked.directiveMode_eq hrun hd hsupplied.recovered
  | document => exact Checked.documentMode_eq hrun hd hsupplied.recovered

/-- **No access is ever out of range.** With settings and a text that are written in characters, whatever their tokens
are, reading the text has an outcome with checked access, which is the one it has without; so does locating an offset,
inside of the text or behind it, and taking the indentation off its lines. Nothing that is done with the document that
is read is out of range either. -/
theorem Checked.never_out_of_range {s : Settings} {t : Text} (hs : s.Encoded) (ht : t.Encoded) :
    Checked.parse s t = Checked.answered (Document.parse s t) ∧
      (∀ offset width, Checked.locate t offset width = some (Location.ofOffset t offset width)) ∧
      (∀ column, Checked.dedent column t = some (Text.dedent column t)) ∧
      ∀ d, Document.parse s t = .ok d → d.InRange :=
  ⟨Checked.parse_eq hs ht, Checked.locate_eq ht, Checked.dedent_eq ht,
    fun _ hd => (Checked.cut_of_parse hs ht hd).inRange⟩

/-- A text with a character of two bytes in front of its markers. -/
def accentedText : Text := "é [[[ g ]]]\né [[[ end ]]]\n"

/-- The document of that text. -/
def accented : Document :=
  ((Document.parse .standard accentedText).toOption).getD { source := [], marks := [], edits := [] }

/-- The document is read, and its output generated, with checked access. -/
theorem Checked.never_out_of_range_accented :
    Checked.parse .standard accentedText = Checked.answered (.ok accented) ∧
      Checked.generate (fun _ _ => .ok "ß") [] .standard .directive false accented {}
        = Checked.answered (.ok "é [[[ g ]]]\nß\né [[[ end ]]]\n") := by
  have hs : Settings.Encoded .standard :=
    ⟨fun f => by cases f <;> exact Text.encoded_ofString _, fun f => by cases f <;> exact Text.encoded_ofString _⟩
  have hd : Document.parse .standard accentedText = .ok accented := by rfl
  obtain ⟨hparse, -, -, hinRange⟩ := Checked.never_out_of_range hs (Text.encoded_ofString _ : accentedText.Encoded)
  have hrender : ∀ t rendered, (fun _ _ => .ok "ß" : Renderer) t [] = .ok rendered → rendered.Encoded := by
    intro t rendered h
    cases h
    exact Text.encoded_ofString _
  have hgenerate := (hinRange accented hd).generate (fun _ _ => .ok "ß") [] .standard .directive false {} hrender hs
    ⟨by simp, by simp⟩
  have houtput : Regen.generate (fun _ _ => .ok "ß") [] .standard .directive false accented {}
      = .ok "é [[[ g ]]]\nß\né [[[ end ]]]\n" := by rfl
  exact ⟨hparse.trans (congrArg _ hd), hgenerate.trans (congrArg _ houtput)⟩

end Regen
