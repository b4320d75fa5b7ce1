import Regen.Proofs.Body
import Regen.Proofs.Carrying
import Regen.Proofs.Outline

/-!
# Printed outlines are read back

What is printed from an outline can be read, and what is read of it is the outline
(`Outline.parse_text`). Reading has two parts, and both follow the outline. The markers that are found
are those that were printed (`Outline.markersFrom_lexemes`). They pair up as the items of the outline
do, since every item begins a new line (`Outline.outermost`): inside a block of whole lines no two
markers share a line, but for the two of a block on one line.

Offsets are carried along as the text in front of an item, which together with the items from there on
makes up a front part of the printed text with a line feed behind it. So where the markers of a block
stand, and what stands between them, is read off the outline (`Outline.outlined_marks`).
-/

namespace Regen

open Text (newline space)
open Pairing (onSameLine clashes)

/-! ## The markers of printed headings -/

/-- What stands between two spaces of padding is what is left without padding. -/
theorem Text.unpad_padded (t : Text) : unpad (space :: (t ++ [space])) = t := by
  simp [unpad, dropPadding, dropEndPadding]

/-- The marker that is read where one is printed behind a text. -/
def Marker.printed (before : Text) (f : Family) (header : Text) : Marker where
  family := f
  tokens := Settings.standard.tokens f
  lead := Text.lastLine before
  openAt := before.length
  closeEnd := (before ++ (Settings.standard.tokens f).quote header).length
  headerLines := if header.isEmpty then [] else [header]

/-- A printed marker has its header. -/
@[simp] theorem Marker.header_printed (before : Text) (f : Family) (header : Text) :
    (printed before f header).header = header := by
  unfold printed Marker.header
  cases header <;> simp [Text.ofLines]

/-- A printed marker ends a block if its header is the word for that. -/
theorem Marker.isEnd_printed (before : Text) (f : Family) (header : Text) :
    (printed before f header).isEnd = (header == (Settings.standard.tokens f).endWord) := by
  rw [isEnd, header_printed]
  rfl

/-- **A printed marker is read**, and then the markers behind it are. -/
theorem Lexeme.markersFrom_written {before after : Text} {f : Family} {header : Text}
    {ls : List Lexeme} {ms : List Marker} (hheader : newline ∉ header)
    (hms : markersFrom .standard (before ++ (Settings.standard.tokens f).quote header) ls after
      = some ms) :
    markersFrom .standard before (written f header :: ls) after
      = some (Marker.printed before f header :: ms) := by
  refine markersFrom_marker.2 ⟨_, ms, ?_, by rw [← hms, ← text_written]; rfl, rfl⟩
  have hline : newline ∉ (Settings.standard.tokens f).opener ++ space :: (header ++ [space]) := by
    have hopener := (Settings.solid_standard.opener f).newline_notMem
    have hspace : newline ≠ space := by decide
    simp [hopener, hheader, hspace]
  have hrule : (Settings.standard.tokens f).headerRule ≠ .multiline := by
    cases f <;> decide
  rw [read?, Marker.headerLines?, if_pos hline, if_neg hrule, Text.unpad_padded, Option.map_some,
    Marker.printed, List.length_append, ← text_written]
  rfl

namespace Heading

/-- The open marker, printed behind a text. -/
def openMarker (h : Heading) (before : Text) : Marker := .printed before h.family h.text

/-- The end marker, printed behind a text. -/
def endMarker (h : Heading) (before : Text) : Marker :=
  .printed before h.family (Settings.standard.tokens h.family).endWord

/-- A heading does not end a block. -/
theorem isEnd_openMarker (h : Heading) (before : Text) : (h.openMarker before).isEnd = false := by
  rw [openMarker, Marker.isEnd_printed, beq_eq_false_iff_ne]
  exact h.not_endWord

/-- An end marker does. -/
theorem isEnd_endMarker (h : Heading) (before : Text) : (h.endMarker before).isEnd = true := by
  rw [endMarker, Marker.isEnd_printed, beq_self_eq_true]

/-- **An open marker is read as it is printed.** -/
theorem markersFrom_opening (h : Heading) {before after : Text} {ls : List Lexeme}
    {ms : List Marker}
    (hms : Lexeme.markersFrom .standard (before ++ h.opens) ls after = some ms) :
    Lexeme.markersFrom .standard before (h.opening :: ls) after
      = some (h.openMarker before :: ms) :=
  Lexeme.markersFrom_written h.newline_notMem hms

/-- **An end marker is read as it is printed.** -/
theorem markersFrom_ending (h : Heading) {before after : Text} {ls : List Lexeme}
    {ms : List Marker}
    (hms : Lexeme.markersFrom .standard (before ++ h.ends) ls after = some ms) :
    Lexeme.markersFrom .standard before (h.ending :: ls) after
      = some (h.endMarker before :: ms) :=
  Lexeme.markersFrom_written (by cases h.family <;> decide +kernel) hms

end Heading

namespace Outline

/-- **The marks of an outline** that is printed into a text, from behind some part of it. -/
def marks (t : Text) (depth : Nat) (before : Text) : Outline → List Mark
  | nil => []
  | line text rest => rest.marks t depth (before ++ text.text ++ [newline])
  | leaf margin h body rest =>
    let pre := before ++ margin.text
    let post := pre ++ h.opens ++ padded body
    let b := Block.ofMarkers t (h.openMarker pre) (h.endMarker post) depth true
    .opening b :: .ending b :: rest.marks t depth (post ++ h.ends ++ [newline])
  | block margin h inner endMargin rest =>
    let pre := before ++ margin.text
    let start := pre ++ h.opens ++ [newline]
    let post := start ++ inner.printed ++ endMargin.text
    let b := Block.ofMarkers t (h.openMarker pre) (h.endMarker post) depth false
    .opening b :: (inner.marks t (depth + 1) start ++
      .ending b :: rest.marks t depth (post ++ h.ends ++ [newline]))

/-- **The markers that are printed are read.** -/
theorem markersFrom_lexemes (o : Outline) (t : Text) (depth : Nat) (before after : Text) :
    Lexeme.markersFrom .standard before o.lexemes after
      = some ((o.marks t depth before).map Mark.marker) := by
  induction o generalizing depth before after with
  | nil => rfl
  | line text rest ih =>
    rw [lexemes, Lexeme.markersFrom_ofText_append]
    exact ih depth _ after
  | leaf margin h body rest ih =>
    rw [lexemes, Lexeme.markersFrom_ofText_append, marks]
    simp only [List.map_cons, Mark.marker, Block.ofMarkers_opening, Block.ofMarkers_ending]
    refine h.markersFrom_opening ?_
    rw [Lexeme.markersFrom_ofText_append]
    exact h.markersFrom_ending (ih depth _ after)
  | block margin h inner endMargin rest ihInner ihRest =>
    rw [lexemes, Lexeme.markersFrom_ofText_append, marks]
    simp only [List.map_cons, List.map_append, Mark.marker, Block.ofMarkers_opening,
      Block.ofMarkers_ending]
    refine h.markersFrom_opening ?_
    refine Lexeme.markersFrom_append.2 ⟨_, _, ihInner (depth + 1) _ _, ?_, rfl⟩
    rw [Lexeme.markersFrom_ofText_append, textOf_lexemes]
    exact h.markersFrom_ending (ihRest depth _ after)

end Outline

/-! ## How printed blocks are arranged -/

/-- What stands in front of a line feed of a text is a part of what stands in front of its last one. -/
theorem Text.isPrefix_of_newline {t x y : Text} (h : x ++ [newline] ++ y <+: t ++ [newline]) :
    x <+: t := by
  have hlen := h.length_le
  simp only [List.length_append, List.length_cons, List.length_nil] at hlen
  rw [List.append_assoc] at h
  exact List.prefix_of_prefix_length_le ((List.prefix_append x _).trans h)
    (List.prefix_append t [newline]) (by omega)

/-- **A marker stands above a text** of whole lines: it ends in one of them, in front of the line feed. -/
def Marker.Above (before : Text) (m : Marker) : Prop :=
  ∃ x, before = x ++ [newline] ∧ m.closeEnd ≤ x.length

/-- A marker above a text is above everything that goes on with whole lines. -/
theorem Marker.Above.append {before u : Text} {m : Marker} (h : m.Above before) (hu : u.Whole) :
    m.Above (before ++ u) := by
  obtain ⟨x, rfl, hle⟩ := h
  rcases hu with rfl | hu
  · exact ⟨x, by simp, hle⟩
  · obtain ⟨u, rfl⟩ := List.getLast?_eq_some_iff.1 hu
    refine ⟨x ++ [newline] ++ u, by simp, ?_⟩
    simp
    omega

/-- A marker that a line ends behind is above what follows. -/
theorem Marker.above_concat {x : Text} {m : Marker} (h : m.closeEnd ≤ x.length) :
    m.Above (x ++ [newline]) := ⟨x, rfl, h⟩

/-- **A line ends between** a marker above a text and one in it. -/
theorem Marker.Above.onSameLine {t before : Text} {p m : Marker} (hp : p.Above before)
    (h : before <+: t) (hm : before.length ≤ m.openAt) : onSameLine t p m = false := by
  obtain ⟨x, rfl, hle⟩ := hp
  obtain ⟨z, rfl⟩ := h
  exact Pairing.onSameLine_eq_false z (by simp) hle hm

/-- No clash comes up at the end of a block if it stands behind the block's own open marker, or behind
another end marker. -/
theorem Pairing.clashes_eq_false {p m : Marker} (h : p.family = m.family ∨ p.isEnd = true) :
    clashes (some p) m = false := by
  rcases h with h | h <;> simp [clashes, h]

namespace Heading

variable {t pre : Text}

/-- The markers of a block on one line, with the padded body between them, make a block. -/
theorem encloses_leaf (h : Heading) (body : PlainLine) (depth : Nat)
    (ht : pre ++ h.opens ++ Outline.padded body <+: t) :
    Encloses t depth (Block.ofMarkers t (h.openMarker pre)
      (h.endMarker (pre ++ h.opens ++ Outline.padded body)) depth true) [] := by
  obtain ⟨z, rfl⟩ := ht
  refine Block.encloses_ofMarkers (h.isEnd_openMarker _) (h.isEnd_endMarker _) .nil ?_
    (Pairing.clashes_eq_false (.inl rfl))
  rw [Pairing.onSameLine_append z rfl rfl]
  have hspace : newline ≠ space := by decide
  simp [Outline.padded, body.newline_notMem, hspace]

/-- The markers of a block of whole lines make a block around marks that are above the end marker. -/
theorem encloses_lines (h : Heading) {depth : Nat} {inner : List Mark} {q : Marker} {post : Text}
    (hinner : Inside t h.family false (depth + 1) (h.openMarker pre) inner q) (above margin : Text)
    (hpost : post = above ++ margin) (hq : q.Above above) (ht : above <+: t)
    (hlast : q = h.openMarker pre ∨ q.isEnd = true) :
    Encloses t depth (Block.ofMarkers t (h.openMarker pre) (h.endMarker post) depth false) inner := by
  refine Block.encloses_ofMarkers (h.isEnd_openMarker _) (h.isEnd_endMarker _) hinner
    (hq.onSameLine ht ?_) (Pairing.clashes_eq_false ?_)
  · rw [hpost]
    exact (List.prefix_append above margin).length_le
  · rcases hlast with rfl | hlast
    · exact .inl rfl
    · exact .inr hlast

end Heading

namespace Outline

/-- The headings of the items, without those inside of them. -/
def headings : Outline → List Heading
  | nil => []
  | line _ rest => rest.headings
  | leaf _ h _ rest => h :: rest.headings
  | block _ h _ _ rest => h :: rest.headings

/-- **No edit is directly inside an edit.** -/
def Apart : Outline → Prop
  | nil => True
  | line _ rest => rest.Apart
  | leaf _ _ _ rest => rest.Apart
  | block _ h inner _ rest =>
    (∀ h' ∈ inner.headings, ¬ (h'.family = .edit ∧ h.family = .edit)) ∧ inner.Apart ∧ rest.Apart

/-- A line of text and what is printed below it. -/
theorem append_printed_line (before : Text) (text : PlainLine) (rest : Outline) :
    before ++ (line text rest).printed = before ++ text.text ++ [newline] ++ rest.printed := by
  simp [printed]

/-- A block on one line and what is printed below it. -/
theorem append_printed_leaf (before : Text) (margin : Margin) (h : Heading) (body : PlainLine)
    (rest : Outline) : before ++ (leaf margin h body rest).printed
      = before ++ margin.text ++ h.opens ++ padded body ++ h.ends ++ [newline] ++ rest.printed := by
  simp [printed]

/-- A block of whole lines and what is printed below it. -/
theorem append_printed_block (before : Text) (margin : Margin) (h : Heading) (inner : Outline)
    (endMargin : Margin) (rest : Outline) : before ++ (block margin h inner endMargin rest).printed
      = before ++ margin.text ++ h.opens ++ [newline] ++ inner.printed ++ endMargin.text ++ h.ends
        ++ [newline] ++ rest.printed := by
  simp [printed]

/-- **The marks of a printed outline inside a block of whole lines** keep to its layout. -/
theorem inside {t : Text} {o : Outline} {family : Family} (depth : Nat) {before : Text} {p : Marker}
    (hapart : o.Apart) (hedits : ∀ h ∈ o.headings, ¬ (h.family = .edit ∧ family = .edit))
    (hp : p.Above before) (hpre : before ++ o.printed <+: t ++ [newline]) :
    ∃ q, Inside t family false depth p (o.marks t depth before) q ∧ q.Above (before ++ o.printed) ∧
      (q = p ∨ q.isEnd = true) := by
  induction o generalizing family depth before p with
  | nil => exact ⟨p, .nil, by simpa [printed] using hp, .inl rfl⟩
  | line text rest ih =>
    rw [append_printed_line] at hpre ⊢
    refine ih depth hapart hedits ?_ hpre
    rw [List.append_assoc]
    exact hp.append (.inr List.getLast?_concat)
  | leaf margin h body rest ih =>
    rw [append_printed_leaf] at hpre ⊢
    obtain ⟨hedit, hedits⟩ := List.forall_mem_cons.1 hedits
    have hline := Text.isPrefix_of_newline hpre
    have hleaf := h.encloses_leaf body depth ((List.prefix_append _ _).trans hline)
    have hsame := hp.onSameLine (m := h.openMarker (before ++ margin.text))
      (List.IsPrefix.trans (by simp) hline) (List.prefix_append before margin.text).length_le
    obtain ⟨q, hrest, habove, hlast⟩ :=
      ih (p := h.endMarker _) depth hapart hedits (Marker.above_concat le_rfl) hpre
    refine ⟨q, Block.inside_ofMarkers hleaf hsame (absurd · Bool.false_ne_true) hedit hrest, habove, .inr ?_⟩
    rcases hlast with rfl | hlast
    · exact h.isEnd_endMarker _
    · exact hlast
  | block margin h inner endMargin rest ihInner ihRest =>
    rw [append_printed_block] at hpre ⊢
    obtain ⟨hedit, hedits⟩ := List.forall_mem_cons.1 hedits
    obtain ⟨hinnerEdits, hinnerApart, hapart⟩ := hapart
    have hline := Text.isPrefix_of_newline hpre
    have hstop := ((List.prefix_append _ _).trans (List.prefix_append _ h.ends)).trans hline
    obtain ⟨q, hinner, habove, hlast⟩ := ihInner (p := h.openMarker _) (depth + 1)
      hinnerApart hinnerEdits (Marker.above_concat le_rfl) (hstop.trans (List.prefix_append t _))
    have hlines := h.encloses_lines hinner _ endMargin.text rfl habove hstop hlast
    have hsame := hp.onSameLine (m := h.openMarker (before ++ margin.text))
      (List.IsPrefix.trans (by simp) hline) (List.prefix_append before margin.text).length_le
    obtain ⟨r, hrest, habove, hlast⟩ :=
      ihRest (p := h.endMarker _) depth hapart hedits (Marker.above_concat le_rfl) hpre
    refine ⟨r, Block.inside_ofMarkers hlines hsame (absurd · Bool.false_ne_true) hedit hrest, habove, .inr ?_⟩
    rcases hlast with rfl | hlast
    · exact h.isEnd_endMarker _
    · exact hlast

end Outline

/-- **Blocks that keep to the layout of whole lines** may be outermost ones, behind another one. -/
theorem Inside.outermost {t : Text} {family : Family} {p q : Marker} {marks : List Mark}
    (h : Inside t family false 1 p marks q) {a : Block} (ha : a.ending = p) :
    Outermost t (some a) marks := by
  generalize hinline : false = isInline at h
  generalize hdepth : 1 = depth at h
  induction h generalizing a with
  | nil => exact .nil
  | @block _ _ _ _ q' _ b _ _ hopens hends hformed hline _ _ hinner hclose hclash _ _ ih =>
    subst hinline hdepth
    refine .block ⟨hopens, hends, hformed, q', hinner, hclose, hclash⟩ ?_ (ih rfl rfl rfl)
    rintro _ ⟨⟩ hsame
    rw [ha, hline] at hsame
    cases hsame

/-- The first outermost block and those behind it. -/
theorem Encloses.outermost {t : Text} {b : Block} {inner rest : List Mark} {family : Family}
    {p q : Marker} (h : Encloses t 1 b inner) (hending : b.ending = p)
    (hrest : Inside t family false 1 p rest q) :
    Outermost t none (.opening b :: (inner ++ .ending b :: rest)) :=
  .block h (fun a ha => absurd ha (Option.not_mem_none a)) (hrest.outermost hending)

namespace Outline

/-- **The marks of a printed outline** are arranged as outermost ones are. -/
theorem outermost {t : Text} {o : Outline} {before : Text} (hapart : o.Apart)
    (hpre : before ++ o.printed <+: t ++ [newline]) : Outermost t none (o.marks t 1 before) := by
  have hedits (o : Outline) : ∀ h ∈ o.headings, ¬ (h.family = .edit ∧ Family.generation = .edit) :=
    fun _ _ h => by cases h.2
  induction o generalizing before with
  | nil => exact .nil
  | line text rest ih =>
    rw [append_printed_line] at hpre
    exact ih hapart hpre
  | leaf margin h body rest ih =>
    rw [append_printed_leaf] at hpre
    have hline := Text.isPrefix_of_newline hpre
    obtain ⟨q, hrest, -⟩ := inside (o := rest) (p := h.endMarker _) 1 hapart (hedits rest)
      (Marker.above_concat le_rfl) hpre
    have hleaf := h.encloses_leaf body 1 ((List.prefix_append _ _).trans hline)
    exact hleaf.outermost (Block.ofMarkers_ending ..) hrest
  | block margin h inner endMargin rest =>
    rw [append_printed_block] at hpre
    obtain ⟨hinnerEdits, hinnerApart, hapart⟩ := hapart
    have hline := Text.isPrefix_of_newline hpre
    have hstop := ((List.prefix_append _ _).trans (List.prefix_append _ h.ends)).trans hline
    obtain ⟨q, hinner, habove, hlast⟩ := inside (p := h.openMarker _) 2 hinnerApart
      hinnerEdits (Marker.above_concat le_rfl) (hstop.trans (List.prefix_append t _))
    obtain ⟨r, hrest, -⟩ := inside (o := rest) (p := h.endMarker _) 1 hapart (hedits rest)
      (Marker.above_concat le_rfl) hpre
    have hlines := h.encloses_lines hinner _ endMargin.text rfl habove hstop hlast
    exact hlines.outermost (Block.ofMarkers_ending ..) hrest

end Outline

/-! ## What is read of printed blocks -/

/-- **What an outline says of a block**, with the offsets at which the two markers are printed. -/
structure Outlined where
  /-- The family. -/
  family : Family
  /-- The header. -/
  header : Text
  /-- How many blocks hold it, itself included. -/
  depth : Nat
  /-- Whether the block lies on one line. -/
  isInline : Bool
  /-- What stands in front of the open marker on its line. -/
  margin : Text
  /-- The body. -/
  body : Text
  /-- The offset of the open marker. -/
  openAt : Nat
  /-- The offset of the end marker. -/
  endAt : Nat
  deriving DecidableEq

/-- **What is read of a block.** -/
def Block.outlined (b : Block) : Outlined where
  family := b.family
  header := b.opening.header
  depth := b.depth
  isInline := b.isInline
  margin := b.opening.lead
  body := b.body
  openAt := b.opening.openAt
  endAt := b.ending.openAt

/-- The last line of whole lines and a margin is the margin. -/
theorem Text.lastLine_append_margin {before : Text} (h : before.Whole) (margin : Margin) :
    lastLine (before ++ margin.text) = margin.text := by
  have hmargin := newline_notMem_of_isIndent margin.isIndent
  rcases h with rfl | h
  · rw [List.nil_append]
    exact lastLine_append_of_notMem [] hmargin
  · obtain ⟨x, rfl⟩ := List.getLast?_eq_some_iff.1 h
    rw [List.append_assoc]
    exact lastLine_append_newline x hmargin

namespace Heading

variable {t pre : Text}

/-- **The body of a block on one line** is what was printed between spaces. -/
theorem body_leaf (h : Heading) (body : PlainLine) (depth : Nat)
    (ht : pre ++ h.opens ++ Outline.padded body <+: t) :
    (Block.ofMarkers t (h.openMarker pre) (h.endMarker (pre ++ h.opens ++ Outline.padded body)) depth
      true).body = body.text := by
  obtain ⟨z, rfl⟩ := ht
  have hparted : Parted true [] (space :: (body.text ++ [space])) [] body.text :=
    .padded (by simp) (by simp)
  have hbetween : pre ++ h.opens ++ Outline.padded body
      = pre ++ h.opens ++ ([] ++ (space :: (body.text ++ [space])) ++ []) := by simp [Outline.padded]
  have hencases : Block.Encases (.ofMarkers _ (h.openMarker pre)
      (h.endMarker (pre ++ h.opens ++ Outline.padded body)) depth true) (pre ++ h.opens) _ _ _ _ :=
    hparted.encases z depth rfl (congrArg List.length hbetween) (congrArg Text.lastLine hbetween)
  rw [← hbetween] at hencases
  exact hencases.body

/-- **The body of a block of whole lines** is the text of the outline in it. -/
theorem body_lines (h : Heading) (inner : Outline) (endMargin : Margin) (depth : Nat)
    (ht : pre ++ h.opens ++ [newline] ++ inner.printed ++ endMargin.text <+: t) :
    (Block.ofMarkers t (h.openMarker pre)
      (h.endMarker (pre ++ h.opens ++ [newline] ++ inner.printed ++ endMargin.text)) depth
      false).body = inner.text := by
  obtain ⟨z, rfl⟩ := ht
  have hparted : Parted false ([] ++ [newline]) inner.printed endMargin.text inner.text := by
    have hmargin := Text.newline_notMem_of_isIndent endMargin.isIndent
    rcases inner.printed_eq with ⟨hlines, hprinted⟩ | hprinted
    · rw [hprinted, Outline.text, hlines]
      exact .empty (by simp) hmargin
    · rw [hprinted]
      exact .lines (by simp) hmargin
  have hbetween : pre ++ h.opens ++ [newline] ++ inner.printed ++ endMargin.text
      = pre ++ h.opens ++ ([] ++ [newline] ++ inner.printed ++ endMargin.text) := by simp
  have hencases : Block.Encases (.ofMarkers _ (h.openMarker pre)
      (h.endMarker (pre ++ h.opens ++ [newline] ++ inner.printed ++ endMargin.text)) depth false)
      (pre ++ h.opens) _ _ _ _ :=
    hparted.encases z depth rfl (congrArg List.length hbetween) (congrArg Text.lastLine hbetween)
  rw [← hbetween] at hencases
  exact hencases.body

/-- **A printed block is read as it is**, once its body is known. -/
theorem outlined_ofMarkers (h : Heading) {before post body : Text} {margin : Margin} {depth : Nat}
    {isInline : Bool} (hwhole : before.Whole)
    (hbody : (Block.ofMarkers t (h.openMarker (before ++ margin.text)) (h.endMarker post) depth
      isInline).body = body) :
    (Block.ofMarkers t (h.openMarker (before ++ margin.text)) (h.endMarker post) depth
      isInline).outlined = ⟨h.family, h.text, depth, isInline, margin.text, body,
        (before ++ margin.text).length, post.length⟩ := by
  have hlead := Text.lastLine_append_margin hwhole margin
  have hheader := Marker.header_printed (before ++ margin.text) h.family h.text
  simp only [Block.outlined, Block.family, Block.ofMarkers_opening, Block.ofMarkers_ending,
    Block.ofMarkers_depth, Block.ofMarkers_isInline, hbody]
  congr 1

end Heading

namespace Outline

/-- **The blocks of an outline** in the order in which they are opened, where it is printed behind some
text. -/
def blocks (depth : Nat) (before : Text) : Outline → List Outlined
  | nil => []
  | line text rest => rest.blocks depth (before ++ text.text ++ [newline])
  | leaf margin h body rest =>
    let pre := before ++ margin.text
    let post := pre ++ h.opens ++ padded body
    ⟨h.family, h.text, depth, true, margin.text, body.text, pre.length, post.length⟩ ::
      rest.blocks depth (post ++ h.ends ++ [newline])
  | block margin h inner endMargin rest =>
    let pre := before ++ margin.text
    let start := pre ++ h.opens ++ [newline]
    let post := start ++ inner.printed ++ endMargin.text
    ⟨h.family, h.text, depth, false, margin.text, inner.text, pre.length, post.length⟩ ::
      (inner.blocks (depth + 1) start ++ rest.blocks depth (post ++ h.ends ++ [newline]))

/-- **The blocks that are printed are read.** -/
theorem outlined_marks {t : Text} {o : Outline} (depth : Nat) {before : Text} (hwhole : before.Whole)
    (hpre : before ++ o.printed <+: t ++ [newline]) :
    ((o.marks t depth before).filterMap Mark.opened?).map Block.outlined = o.blocks depth before := by
  induction o generalizing depth before with
  | nil => rfl
  | line text rest ih =>
    rw [append_printed_line] at hpre
    exact ih depth (.inr List.getLast?_concat) hpre
  | leaf margin h body rest ih =>
    rw [append_printed_leaf] at hpre
    have hline := Text.isPrefix_of_newline hpre
    have hbody := h.body_leaf body depth ((List.prefix_append _ _).trans hline)
    rw [marks, blocks]
    simp only [List.filterMap_cons, Mark.opened?, List.map_cons]
    rw [h.outlined_ofMarkers hwhole hbody, ih depth (.inr List.getLast?_concat) hpre]
  | block margin h inner endMargin rest ihInner ihRest =>
    rw [append_printed_block] at hpre
    have hline := Text.isPrefix_of_newline hpre
    have hstop := (List.prefix_append _ h.ends).trans hline
    have hbody := h.body_lines inner endMargin depth hstop
    have hinner := ((List.prefix_append _ _).trans hstop).trans (List.prefix_append t [newline])
    rw [marks, blocks]
    simp only [List.filterMap_cons, List.filterMap_append, Mark.opened?, List.map_cons,
      List.map_append]
    rw [h.outlined_ofMarkers hwhole hbody, ihInner (depth + 1) (.inr List.getLast?_concat) hinner,
      ihRest depth (.inr List.getLast?_concat) hpre]

/-! ## The text as a whole -/

/-- The names of the edits of an outline. -/
def editNames (o : Outline) : List Text :=
  ((o.blocks 1 []).filter (·.family = .edit)).map (·.header.trim)

/-- The lexemes of an outline with items end with a line feed. -/
theorem newline_isSuffix_lexemes (o : Outline) :
    o = nil ∨ [Lexeme.byte newline] <:+ o.lexemes := by
  have hbelow {rest : Outline} (h : rest = nil ∨ [Lexeme.byte newline] <:+ rest.lexemes) :
      [Lexeme.byte newline] <:+ Lexeme.byte newline :: rest.lexemes := by
    rcases h with rfl | h
    · exact List.suffix_rfl
    · exact h.trans (List.suffix_cons _ _)
  induction o with
  | nil => exact .inl rfl
  | line text rest ih => exact .inr ((hbelow ih).trans (List.suffix_append _ _))
  | leaf margin h body rest ih =>
    refine .inr ((hbelow ih).trans ⟨Lexeme.ofText margin.text ++ h.opening ::
      (Lexeme.ofText (padded body) ++ [h.ending]), ?_⟩)
    simp [lexemes]
  | block margin h inner endMargin rest _ ih =>
    refine .inr ((hbelow ih).trans ⟨Lexeme.ofText margin.text ++ h.opening ::
      Lexeme.byte newline :: (inner.lexemes ++ (Lexeme.ofText endMargin.text ++ [h.ending])), ?_⟩)
    simp [lexemes]

/-- The text of an outline falls into lexemes, and the markers among them are those that are printed. -/
theorem exists_lexed (o : Outline) : ∃ ls, Lexeme.Lexed .standard ls ∧
    Lexeme.textOf .standard ls = o.text ∧
    Lexeme.markersFrom .standard [] ls [] = some ((o.marks o.text 1 []).map Mark.marker) := by
  rcases o.newline_isSuffix_lexemes with rfl | ⟨ls, hls⟩
  · exact ⟨[], .nil, rfl, rfl⟩
  · have hlexed := o.lexed
    have htext := o.textOf_lexemes
    have hmarkers := o.markersFrom_lexemes o.text 1 [] []
    rw [← hls] at hlexed htext hmarkers
    obtain ⟨ms, ms', hms, hms', hmarks⟩ := Lexeme.markersFrom_append.1 hmarkers
    cases hms'
    rw [Lexeme.textOf_append] at htext
    refine ⟨ls, hlexed.of_append_left, ?_, ?_⟩
    · rcases o.printed_eq with ⟨-, hprinted⟩ | hprinted
      · rw [hprinted] at htext
        simp at htext
      · rw [hprinted] at htext
        exact List.append_cancel_right htext
    · rw [hmarks, List.append_nil, ← hms]
      exact Lexeme.markersFrom_congr_after
        (fun f => (Settings.solid_standard.opener f).newline_notMem) Settings.usable_standard.closer
        [] ls _ _

/-- **Printed outlines are read back.** Take an outline in which no edit is directly inside an edit, and
whose edits have distinct names. Its text is read with the standard settings. The marks of the document
are those that were printed, the end marker of a block behind the marks inside it. The blocks, in the
order of their open markers, are those of the outline: each with its family, its header, its margin and
its depth, opened and ended where its own markers are printed, on one line if it is printed on one, and
with the body that is printed – for a block of whole lines, the text of the outline in it. -/
theorem parse_text {o : Outline} (hapart : o.Apart) (hnames : o.editNames.Nodup) :
    ∃ d, Document.parse .standard o.text = .ok d ∧ d.source = o.text ∧
      d.marks = o.marks o.text 1 [] ∧ d.blocks.map Block.outlined = o.blocks 1 [] := by
  have hpre : [] ++ o.printed <+: o.text ++ [newline] := by
    rcases o.printed_eq with ⟨-, hprinted⟩ | hprinted
    · rw [hprinted]
      exact List.nil_prefix
    · rw [hprinted]
      exact List.prefix_rfl
  have hblocks := outlined_marks 1 (.inl rfl) hpre
  have hdistinct : ((Document.editBlocks (o.marks o.text 1 [])).map Block.name).Nodup := by
    rw [editNames, ← hblocks, List.filter_map, List.map_map] at hnames
    exact hnames
  let d : Document := {
    source := o.text
    marks := o.marks o.text 1 []
    edits := (Document.editBlocks (o.marks o.text 1 [])).map ({ source := o.text, block := · }) }
  exact ⟨d, Document.parse_eq_ok_iff.2 ⟨Settings.usable_standard, o.exists_lexed, outermost hapart hpre,
      hdistinct, rfl, rfl⟩, rfl, rfl, hblocks⟩

/-- A line. -/
def sampleLine : PlainLine := ⟨"x", by decide +kernel, fun f => by cases f <;> decide +kernel⟩

/-- A heading of each family. -/
def sampleHeading (f : Family) : Heading where
  toPlainLine := sampleLine
  family := f
  closes_nothing := by cases f <;> decide +kernel
  not_endWord := by cases f <;> decide +kernel

/-- A line and an edit of whole lines, with a block on one line inside, inside another block. -/
def sample : Outline :=
  .block ⟨[], nofun⟩ (sampleHeading .generation)
    (.line sampleLine (.block ⟨"\t", by decide +kernel⟩ (sampleHeading .edit)
      (.leaf ⟨"  ", by decide +kernel⟩ (sampleHeading .generation) sampleLine .nil)
      ⟨[], nofun⟩ .nil))
    ⟨[], nofun⟩ .nil

/-- The outline is read back from its text. -/
theorem parse_text_sample :
    sample.text = ("[[[ x ]]]\nx\n\t<<[ x ]>>\n  [[[ x ]]] x [[[ end ]]]\n<<[ end ]>>\n[[[ end ]]]" : Text) ∧
      ∃ d, Document.parse .standard sample.text = .ok d ∧ d.blocks.map Block.outlined =
        [⟨.generation, "x", 1, false, [], "x\n\t<<[ x ]>>\n  [[[ x ]]] x [[[ end ]]]\n<<[ end ]>>", 0, 61⟩,
          ⟨.edit, "x", 2, false, "\t", "  [[[ x ]]] x [[[ end ]]]", 13, 49⟩,
          ⟨.generation, "x", 3, true, "  ", "x", 25, 37⟩] := by
  have hapart : sample.Apart := ⟨by decide +kernel, ⟨by decide +kernel, trivial, trivial⟩, trivial⟩
  obtain ⟨d, hd, -, -, hblocks⟩ := parse_text hapart (by decide +kernel)
  exact ⟨by decide +kernel, d, hd, hblocks.trans (by decide +kernel)⟩

end Outline

end Regen
