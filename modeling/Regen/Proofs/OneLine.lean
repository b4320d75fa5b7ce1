import Regen.Proofs.Overlap

/-!
# Blocks on one line

Whether a block is inline is found out on the way from each marker to the next: a block is inline if no line ends
on any of these ways between its own markers, and then so are the blocks that it holds. What stands *in* the markers
of these blocks is passed over. So the two markers of an inline block stand on one line as far as only the text
between markers counts, and the header of a generation marker, which may take several lines, does not.

**A block is inline exactly if each line feed between its markers stands in a marker that it holds**
(`Document.isInline_iff_covered`). Hence a block is what its layout says, inline exactly if no line ends between its
markers, unless it is inline and holds a marker of several lines; such documents exist (`Document.not_isInline_iff`),
and the body of the block then has several lines, too.
-/

namespace Regen

open Pairing
open Text (newline)

/-! ## Offsets of bytes -/

/-- A byte is in a stretch if it stands at an offset that lies there. -/
theorem Span.mem_of_iff {a : Span} {t : Text} {b : UInt8} :
    b ∈ a.of t ↔ ∃ i, a.Covers i ∧ t[i]? = some b := by
  rw [Span.of, List.extract_eq_take_drop, List.mem_iff_getElem?]
  simp only [List.getElem?_take, List.getElem?_drop]
  constructor
  · rintro ⟨n, hn⟩
    split at hn
    · exact ⟨a.start + n, ⟨Nat.le_add_right _ _, by omega⟩, hn⟩
    · cases hn
  · rintro ⟨i, ⟨hstart, hstop⟩, hi⟩
    refine ⟨i - a.start, ?_⟩
    rw [if_pos (by omega), Nat.add_sub_cancel' hstart, hi]

/-- What stands between the markers of a block. -/
def Block.interior (b : Block) : Span := ⟨b.opening.closeEnd, b.ending.openAt⟩

variable {s : Settings} {t : Text} {b : Block}

/-! ## Inline blocks -/

/-- A line feed behind a marker is not in front of the next one on the same line. -/
theorem le_of_onSameLine {p m : Marker} (h : onSameLine t p m = true) {i : Nat}
    (hi : t[i]? = some newline) (hp : p.closeEnd ≤ i) : m.openAt ≤ i := by
  by_contra hlt
  have hmem : newline ∈ Span.of t ⟨p.closeEnd, m.openAt⟩ :=
    Span.mem_of_iff.2 ⟨i, ⟨hp, Nat.lt_of_not_le hlt⟩, hi⟩
  rw [onSameLine, decide_eq_true_iff] at h
  exact h hmem

/-- **Between the marks inside an inline block no line ends**: a line feed behind the marker in front of them, and in
front of the end of the last one, stands in one of them. -/
theorem Inside.exists_covers {family : Family} {isInline : Bool} {depth : Nat} {p q : Marker}
    {marks : List Mark} (h : Inside t family isInline depth p marks q) (hinline : isInline = true) {i : Nat}
    (hi : t[i]? = some newline) (hp : p.closeEnd ≤ i) (hq : i < q.closeEnd) :
    ∃ m ∈ marks, m.marker.extent.Covers i := by
  induction h with
  | nil => exact absurd (hq.trans_le hp) (Nat.lt_irrefl _)
  | @block family isInline depth p q r b inner rest _ _ _ hline hchild _ _ hclose _ _ ihInner ihRest =>
    have hchild := hchild hinline
    have hopening := le_of_onSameLine (hline.trans hinline) hi hp
    -- the line feed stands in one of the two markers of `b`, between them, or behind them
    rcases Nat.lt_or_ge i b.opening.closeEnd with hi₁ | hi₁
    · exact ⟨.opening b, by simp, hopening, hi₁⟩
    rcases Nat.lt_or_ge i q.closeEnd with hi₂ | hi₂
    · obtain ⟨m, hm, hcovers⟩ := ihInner hchild hi₁ hi₂
      exact ⟨m, by simp [hm], hcovers⟩
    have hending := le_of_onSameLine (hclose.trans hchild) hi hi₂
    rcases Nat.lt_or_ge i b.ending.closeEnd with hi₃ | hi₃
    · exact ⟨.ending b, by simp, hending, hi₃⟩
    · obtain ⟨m, hm, hcovers⟩ := ihRest hinline hi₃ hq
      exact ⟨m, by simp [hm], hcovers⟩

/-- Between the markers of an inline block every line feed stands in a marker inside it. -/
theorem Encloses.exists_covers {depth : Nat} {inner : List Mark} (h : Encloses t depth b inner)
    (hinline : b.isInline) {i : Nat} (hi : t[i]? = some newline) (hcovers : b.interior.Covers i) :
    ∃ m ∈ inner, m.marker.extent.Covers i := by
  obtain ⟨q, hinside, hclose, -⟩ := h.layout
  refine hinside.exists_covers hinline hi hcovers.1 ?_
  by_contra hq
  have hending := le_of_onSameLine (hclose.trans hinline) hi (Nat.le_of_not_lt hq)
  exact absurd hcovers.2 (Nat.not_lt_of_le hending)

/-- **The body of an inline block** stands between its markers. -/
theorem Block.inlineOf_body (opening ending : Marker) (depth : Nat) {c : UInt8}
    (h : c ∈ (inlineOf t opening ending depth).body) : c ∈ t.extract opening.closeEnd ending.openAt := by
  unfold inlineOf at h
  split at h
  · exact h
  · rename_i first hfirst
    have hfirst := Text.byteIn?_bounds hfirst
    split at h
    · exact Text.mem_extract_mono (by omega) le_rfl h
    · rename_i last hlast
      have hlast := Text.lastByteIn?_bounds hlast
      exact Text.mem_extract_mono (by omega) hlast.2.le h

namespace Document

variable {d : Document}

/-! ## Blocks of whole lines -/

/-- **The first line between the markers of a block of whole lines** ends in front of all markers that it holds. -/
theorem exists_uncovered (hd : parse s t = .ok d) (hb : b ∈ d.blocks) (hlines : b.isInline = false) :
    ∃ i, b.interior.Covers i ∧ t[i]? = some newline ∧
      ∀ m ∈ d.marks, b.Surrounds m → i < m.marker.openAt := by
  obtain ⟨hopening, -⟩ := marks_of_mem_blocks hd hb
  have hmem := (stands_of_mem_blocks hd b hb).before.newline (.inl hlines)
  obtain ⟨first, hfirst⟩ : ∃ k, Text.byteIn? newline t b.opening.closeEnd b.ending.openAt = some k := by
    rw [← Option.ne_none_iff_exists']
    exact fun hnone => Text.byteIn?_eq_none_iff.1 hnone hmem
  have hbounds := Text.byteIn?_bounds hfirst
  have hupTo := (Text.mem_extract_iff_of_byteIn? hfirst hbounds.2).2 (Nat.lt_succ_self first)
  obtain ⟨i, ⟨hstart, hstop⟩, hi⟩ := (Span.mem_of_iff (a := ⟨b.opening.closeEnd, first + 1⟩)).1 hupTo
  refine ⟨i, ⟨hstart, hstop.trans_le hbounds.2⟩, hi, fun m hm hsurrounds => ?_⟩
  have hordered := closeEnd_le_of_surrounds hd hb hm hsurrounds
  have hwidth := openAt_lt_closeEnd hd hm
  have hbefore : Mark.Before t (.opening b) m := by
    rcases before_or_before hd hopening hm with rfl | h | h
    · exact absurd hsurrounds.1 (Nat.lt_irrefl _)
    · exact h
    · exact absurd (h.ordered.trans_lt (hsurrounds.1.trans hwidth)) (Nat.lt_irrefl _)
  have hfront := (Text.mem_extract_iff_of_byteIn? hfirst (hwidth.le.trans hordered.2)).1
    (hbefore.newline (.inl hlines))
  exact (Nat.le_of_lt_succ hstop).trans_lt hfront

/-- Between the markers of a block of whole lines a line ends. -/
theorem newline_mem_interior (hd : parse s t = .ok d) (hb : b ∈ d.blocks) (hlines : b.isInline = false) :
    newline ∈ b.interior.of t := by
  obtain ⟨i, hcovers, hi, -⟩ := exists_uncovered hd hb hlines
  exact Span.mem_of_iff.2 ⟨i, hcovers, hi⟩

/-! ## The layout of a block -/

/-- Between the markers of an inline block of a document every line feed stands in a marker that it holds. -/
theorem covered_of_isInline (hd : parse s t = .ok d) (hb : b ∈ d.blocks) (hinline : b.isInline) {i : Nat}
    (hcovers : b.interior.Covers i) (hi : t[i]? = some newline) :
    ∃ m ∈ d.marks, b.Surrounds m ∧ m.marker.extent.Covers i := by
  have houter := outermost_of_parse hd
  obtain ⟨depth, inner, henclosed, hholds⟩ := houter.exists_holds b hb
  obtain ⟨m, hm, hextent⟩ := henclosed.exists_covers hinline hi hcovers
  have hmem : m ∈ d.marks := hholds.subset (by simp [hm])
  exact ⟨m, hmem, (hholds.mem_iff (sorted_marks hd) hmem).1 hm, hextent⟩

/-- If a line ends between the markers of an inline block, a marker that it holds has several lines. -/
theorem exists_tall_of_isInline (hd : parse s t = .ok d) (hb : b ∈ d.blocks) (hinline : b.isInline)
    (h : newline ∈ b.interior.of t) :
    ∃ m ∈ d.marks, b.Surrounds m ∧ newline ∈ m.marker.extent.of t := by
  obtain ⟨i, hcovers, hi⟩ := Span.mem_of_iff.1 h
  obtain ⟨m, hm, hsurrounds, hextent⟩ := covered_of_isInline hd hb hinline hcovers hi
  exact ⟨m, hm, hsurrounds, Span.mem_of_iff.2 ⟨i, hextent, hi⟩⟩

/-- **A block is inline exactly if each line feed between its markers stands in a marker that it holds.** So
whether a block is inline says whether a line ends between its markers, unless it is inline and one of the markers that
it holds takes several lines. In particular, if the body of an inline block has several lines, a marker in it has. -/
theorem isInline_iff_covered (hd : parse s t = .ok d) (hb : b ∈ d.blocks) :
    (b.isInline ↔ ∀ i, b.interior.Covers i → t[i]? = some newline →
      ∃ m ∈ d.marks, b.Surrounds m ∧ m.marker.extent.Covers i) ∧
    ((b.isInline ↔ newline ∉ b.interior.of t) ↔
      (b.isInline → ∀ m ∈ d.marks, b.Surrounds m → newline ∉ m.marker.extent.of t)) ∧
    (b.isInline → newline ∈ b.body →
      ∃ m ∈ d.marks, b.Surrounds m ∧ newline ∈ m.marker.extent.of t) := by
  refine ⟨⟨fun hinline i hcovers hi => covered_of_isInline hd hb hinline hcovers hi, fun h => ?_⟩,
    ⟨fun h hinline m hm hsurrounds hmem => ?_, fun h => ⟨fun hinline hmem => ?_, fun hno => ?_⟩⟩,
    fun hinline hmem => exists_tall_of_isInline hd hb hinline ?_⟩
  · by_contra hlines
    obtain ⟨i, hcovers, hi, hfront⟩ := exists_uncovered hd hb (by simpa using hlines)
    obtain ⟨m, hm, hsurrounds, hextent⟩ := h i hcovers hi
    exact absurd hextent.1 (Nat.not_le_of_lt (hfront m hm hsurrounds))
  · have hbounds := closeEnd_le_of_surrounds hd hb hm hsurrounds
    exact h.1 hinline (Text.mem_extract_mono hbounds.1 hbounds.2 hmem)
  · obtain ⟨m, hm, hsurrounds, hmem⟩ := exists_tall_of_isInline hd hb hinline hmem
    exact h hinline m hm hsurrounds hmem
  · by_contra hlines
    exact hno (newline_mem_interior hd hb (by simpa using hlines))
  · have hformed := (stands_of_mem_blocks hd b hb).formed
    rw [hinline] at hformed
    rw [hformed] at hmem
    exact Block.inlineOf_body _ _ _ hmem

/-- An inline block around another one, whose header takes three lines. -/
def tallText : Text := "[[[ a ]]] [[[\n          b\n          ]]] [[[ end ]]] [[[ end ]]]"

/-- The outer block of that text is inline, and its body has three lines. So has the open marker in it. -/
theorem isInline_iff_covered_tallText : ∃ d, ∃ b ∈ d.blocks, parse .standard tallText = .ok d ∧ b.isInline ∧
    newline ∈ b.body ∧ (∀ i, b.interior.Covers i → tallText[i]? = some newline →
      ∃ m ∈ d.marks, b.Surrounds m ∧ m.marker.extent.Covers i) ∧
    ∃ m ∈ d.marks, b.Surrounds m ∧ newline ∈ m.marker.extent.of tallText := by
  obtain ⟨d, hd, b, hb, hinline, hbody⟩ : ∃ d, parse .standard tallText = .ok d ∧
      ∃ b ∈ d.blocks, b.isInline ∧ newline ∈ b.body := ⟨_, rfl, by decide +kernel⟩
  obtain ⟨hcovered, -, htall⟩ := isInline_iff_covered hd hb
  exact ⟨d, b, hb, hd, hinline, hbody, hcovered.1 hinline, htall hinline hbody⟩

/-- **An inline block may have several lines**: lines end between the markers of the outer block of that text, and in
its body. -/
theorem not_isInline_iff :
    (¬ ∀ (s : Settings) (t : Text) (d : Document), parse s t = .ok d → ∀ b ∈ d.blocks,
      (b.isInline ↔ newline ∉ b.interior.of t)) ∧
    ¬ ∀ (s : Settings) (t : Text) (d : Document), parse s t = .ok d → ∀ b ∈ d.blocks,
      b.isInline → newline ∉ b.body := by
  obtain ⟨d, hd, b, hb, hinline, hinterior, hbody⟩ : ∃ d, parse .standard tallText = .ok d ∧
      ∃ b ∈ d.blocks, b.isInline ∧ newline ∈ b.interior.of tallText ∧ newline ∈ b.body :=
    ⟨_, rfl, by decide +kernel⟩
  exact ⟨fun h => (h _ _ d hd b hb).1 hinline hinterior, fun h => h _ _ d hd b hb hinline hbody⟩

end Document

end Regen
