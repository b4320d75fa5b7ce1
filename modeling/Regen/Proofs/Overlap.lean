import Mathlib.Tactic.TFAE
import Regen.Proofs.Leftmost
import Regen.Proofs.Pairs

/-!
# Where spans overlap

What is written back with the markers of a document should not overlap. For blocks of one depth it does not
(`Document.spans_ordered`), and a block of whole lines has its lines for itself, so that spans can only meet where an
inline block holds other blocks. There they do: the span of an inline block reaches up to the first space between its
markers and begins again behind the last one, wherever these spaces are, and they may be inside of the header of
another marker.

**The spans of a document are disjoint exactly if each inline block is padded** (`Document.disjoint_spans`): in front
of each marker that it holds there is a space, and one behind it, unless there is none at all between its own markers.
A document that is not padded can be read all the same (`Document.not_disjoint_span`).
-/

namespace Regen

open Text (space)
open Block (ofMarkers inlineOf linesOf)

/-! ## Spans as sets of offsets -/

namespace Span

/-- An offset lies in a span. -/
def Covers (a : Span) (i : Nat) : Prop := a.start ≤ i ∧ i < a.stop

/-- **Disjoint spans**: no offset lies in both. -/
def Disjoint (a b : Span) : Prop := ∀ i, ¬ (a.Covers i ∧ b.Covers i)

variable {a b c : Span}

/-- A span that ends in front of another one is disjoint from it. -/
theorem disjoint_of_le (h : a.stop ≤ b.start) : a.Disjoint b := by
  rintro i ⟨ha, hb⟩
  exact absurd (ha.2.trans_le (h.trans hb.1)) (Nat.lt_irrefl _)

theorem Disjoint.symm (h : a.Disjoint b) : b.Disjoint a := fun i hi => h i hi.symm

/-- What lies in a span is disjoint from what the span is. -/
theorem Disjoint.of_covers (h : a.Disjoint b) (hc : ∀ i, c.Covers i → b.Covers i) : a.Disjoint c :=
  fun i hi => h i ⟨hi.1, hc i hi.2⟩

/-- Of two disjoint spans the one that starts in front of an offset of the other one ends there. -/
theorem Disjoint.stop_le (h : a.Disjoint b) {i : Nat} (hi : b.Covers i) (ha : a.start ≤ i) : a.stop ≤ i := by
  by_contra hlt
  exact h i ⟨⟨ha, Nat.lt_of_not_le hlt⟩, hi⟩

/-- Of two disjoint spans the one that ends behind an offset of the other one starts behind it. -/
theorem Disjoint.lt_start (h : a.Disjoint b) {i : Nat} (hi : b.Covers i) (ha : i < a.stop) : i < a.start := by
  by_contra hle
  exact h i ⟨⟨Nat.le_of_not_lt hle, ha⟩, hi⟩

end Span

/-! ## Bytes in a stretch -/

namespace Text

variable {b : UInt8} {t : Text} {i j k : Nat}

/-- A search of a stretch finds no byte that is not in it. -/
theorem byteIn?_eq_none_iff : byteIn? b t i j = none ↔ b ∉ t.extract i j := by
  rw [byteIn?, Option.map_eq_none_iff, List.idxOf?_eq_none_iff]

/-- A search of a stretch finds the first place of a byte. -/
theorem mem_extract_iff_of_byteIn? (h : byteIn? b t i j = some k) {n : Nat} (hn : n ≤ j) :
    b ∈ t.extract i n ↔ k < n := by
  obtain ⟨m, hm, rfl⟩ := Option.map_eq_some_iff.1 h
  obtain ⟨x, z, hxz, rfl, hx⟩ := idxOf?_eq_some.1 hm
  have htake : t.extract i n = (x ++ b :: z).take (n - i) := by
    rw [← hxz, List.extract_eq_take_drop, List.extract_eq_take_drop, List.take_take,
      min_eq_left (by omega)]
  rw [htake, List.take_append, List.mem_append]
  constructor
  · rintro (hmem | hmem)
    · exact absurd (List.mem_of_mem_take hmem) hx
    · have := List.length_pos_of_mem hmem
      rw [List.length_take] at this
      omega
  · intro hlt
    rw [show n - i - x.length = (n - i - x.length - 1) + 1 by omega]
    exact .inr (by simp)

/-- The byte that a search of a stretch finds is there. -/
theorem mem_extract_of_byteIn? (h : byteIn? b t i j = some k) : b ∈ t.extract k j := by
  have hbounds := byteIn?_bounds h
  have hmem := (mem_extract_iff_of_byteIn? h le_rfl).2 hbounds.2
  have hno := mt (mem_extract_iff_of_byteIn? h hbounds.2.le).1 (Nat.lt_irrefl k)
  rw [← extract_append_extract t hbounds.1 hbounds.2.le, List.mem_append] at hmem
  exact hmem.resolve_left hno

/-- A search of a stretch from behind finds no byte that is not in it. -/
theorem lastByteIn?_eq_none_iff : lastByteIn? b t i j = none ↔ b ∉ t.extract i j := by
  rw [lastByteIn?, Option.map_eq_none_iff, lastIdxOf?_eq_none]

/-- A search of a stretch from behind finds the last place of a byte. -/
theorem mem_extract_iff_of_lastByteIn? (h : lastByteIn? b t i j = some k) {n : Nat} (hn : i ≤ n) :
    b ∈ t.extract n j ↔ n ≤ k := by
  obtain ⟨m, hm, rfl⟩ := Option.map_eq_some_iff.1 h
  obtain ⟨x, z, hxz, rfl, hz⟩ := lastIdxOf?_eq_some.1 hm
  have hdrop : t.extract n j = (x ++ b :: z).drop (n - i) := by
    rw [← hxz, List.extract_eq_take_drop, List.extract_eq_take_drop, List.drop_take, List.drop_drop,
      Nat.add_sub_cancel' hn, show j - i - (n - i) = j - n by omega]
  rw [hdrop, List.drop_append, List.mem_append]
  constructor
  · rintro (hmem | hmem)
    · have := List.length_pos_of_mem hmem
      rw [List.length_drop] at this
      omega
    · by_contra hlt
      rw [show n - i - x.length = (n - i - x.length - 1) + 1 by omega, List.drop_succ_cons] at hmem
      exact hz (List.mem_of_mem_drop hmem)
  · intro hle
    rw [show n - i - x.length = 0 by omega]
    exact .inr (by simp)

end Text

variable {s : Settings} {t : Text} {b : Block} {m m' : Mark}

/-! ## How far the spans of an inline block reach -/

namespace Block

variable {opening ending : Marker} {n : Nat}

/-- **The span of an open marker stays in front of an offset** if there is no space between the markers, or one up to
that offset. -/
theorem inlineOf_openSpan_stop_le_iff (depth : Nat) (hstop : n < ending.openAt) (hstart : opening.closeEnd ≤ n) :
    (inlineOf t opening ending depth).openSpan.stop ≤ n ↔
      (space ∈ t.extract opening.closeEnd ending.openAt → space ∈ t.extract opening.closeEnd (n + 1)) := by
  unfold inlineOf
  split
  · rename_i hnone
    exact iff_of_true hstart fun h => absurd h (Text.byteIn?_eq_none_iff.1 hnone)
  · rename_i first hfirst
    have hmem := (Text.mem_extract_iff_of_byteIn? hfirst le_rfl).2 (Text.byteIn?_bounds hfirst).2
    rw [Text.mem_extract_iff_of_byteIn? hfirst hstop, Nat.lt_succ_iff, forall_prop_of_true hmem]
    split <;> rfl

/-- **The span of an end marker stays behind an offset** if there is no space between the markers, or one from the
byte in front of that offset on. -/
theorem le_inlineOf_endSpan_start_iff (depth : Nat) (hstop : n ≤ ending.openAt) :
    n ≤ (inlineOf t opening ending depth).endSpan.start ↔
      (space ∈ t.extract opening.closeEnd ending.openAt → space ∈ t.extract (n - 1) ending.openAt) := by
  unfold inlineOf
  split
  · rename_i hnone
    exact iff_of_true hstop fun h => absurd h (Text.byteIn?_eq_none_iff.1 hnone)
  · rename_i first hfirst
    obtain ⟨hle, hlt⟩ := Text.byteIn?_bounds hfirst
    have hmem := (Text.mem_extract_iff_of_byteIn? hfirst le_rfl).2 hlt
    split
    · rename_i hnone
      exact absurd (Text.mem_extract_of_byteIn? hfirst) (Text.lastByteIn?_eq_none_iff.1 hnone)
    · rename_i last hlast
      rw [forall_prop_of_true hmem]
      show n ≤ last + 1 ↔ _
      rw [← Nat.sub_le_iff_le_add]
      rcases Nat.le_total first (n - 1) with hn | hn
      · exact (Text.mem_extract_iff_of_lastByteIn? hlast hn).symm
      · -- the first space is behind the offset already, and so is the last one
        have := Text.lastByteIn?_bounds hlast
        have hlast := (Text.mem_extract_iff_of_lastByteIn? hlast le_rfl).2 this.1
        exact iff_of_true (hn.trans this.1) (Text.mem_extract_mono hn le_rfl hlast)

/-- A block stands around a mark if the marker of the mark is opened between its own markers. -/
def Surrounds (b : Block) (m : Mark) : Prop :=
  b.opening.openAt < m.marker.openAt ∧ m.marker.openAt < b.ending.openAt

instance (b : Block) (m : Mark) : Decidable (b.Surrounds m) := inferInstanceAs (Decidable (_ ∧ _))

/-- **A block is padded around a mark**: if there is a space between its markers at all, there is one in front of the
mark and one behind it. The first byte of an opener and the last one of a closer may be these spaces. -/
def PaddedAround (t : Text) (b : Block) (m : Mark) : Prop :=
  space ∈ t.extract b.opening.closeEnd b.ending.openAt →
    space ∈ t.extract b.opening.closeEnd (m.marker.openAt + 1) ∧
      space ∈ t.extract (m.marker.closeEnd - 1) b.ending.openAt

instance (t : Text) (b : Block) (m : Mark) : Decidable (b.PaddedAround t m) :=
  inferInstanceAs (Decidable (_ → _))

/-- **The spans of an inline block leave out a marker between its own** exactly if it is padded around it. -/
theorem Stands.paddedAround_iff (hb : b.Stands s t) (hinline : b.isInline)
    (hopen : b.opening.closeEnd ≤ m.marker.openAt) (hwidth : m.marker.openAt < m.marker.closeEnd)
    (hclose : m.marker.closeEnd ≤ b.ending.openAt) :
    b.PaddedAround t m ↔ b.openSpan.stop ≤ m.marker.openAt ∧ m.marker.closeEnd ≤ b.endSpan.start := by
  have hformed : b = inlineOf t b.opening b.ending b.depth := by
    simpa [ofMarkers, hinline] using hb.formed
  have hstop := inlineOf_openSpan_stop_le_iff (t := t) b.depth (hwidth.trans_le hclose) hopen
  have hstart : m.marker.closeEnd ≤ (inlineOf t b.opening b.ending b.depth).endSpan.start ↔ _ :=
    le_inlineOf_endSpan_start_iff b.depth hclose
  rw [← hformed] at hstop hstart
  rw [hstop, hstart, PaddedAround, ← forall_and]

end Block

/-! ## The two ends of a span -/

/-- The spans of an inline block begin and end with its markers, and the first one ends in front of the second one. -/
theorem Block.Stands.inline_spans (hb : b.Stands s t) (hinline : b.isInline) :
    b.openSpan.start = b.opening.openAt ∧ b.opening.closeEnd ≤ b.openSpan.stop ∧
      b.openSpan.stop ≤ b.endSpan.start ∧ b.endSpan.start ≤ b.ending.openAt ∧
      b.endSpan.stop = b.ending.closeEnd := by
  have hspans := inlineOf_spans (t := t) b.depth hb.before.ordered
  have hformed : b = inlineOf t b.opening b.ending b.depth := by
    simpa [ofMarkers, hinline] using hb.formed
  simp only [Mark.marker] at hspans
  rwa [← hformed] at hspans

namespace Mark

/-- What is written back for a mark starts with its marker, or with the line of it, unless it ends an inline block. -/
theorem span_start_eq (hb : m.block.Stands s t) (hfree : m = .ending m.block → m.block.isInline = false) :
    m.span.start = if m.block.isInline then m.marker.openAt else m.marker.lineStart := by
  cases m with
  | opening b => exact Block.openSpan_start_eq hb.formed hb.before.ordered
  | ending b =>
    have hlines : b.isInline = false := hfree rfl
    rw [block, hlines]
    exact congrArg Span.start (hb.spans_eq hlines).2

/-- What is written back for a mark ends with its marker, or with the line of it, unless it opens an inline block. -/
theorem span_stop_eq (hb : m.block.Stands s t) (hfree : m = .opening m.block → m.block.isInline = false) :
    m.span.stop = if m.block.isInline then m.marker.closeEnd else Text.lineStop t m.marker.closeEnd := by
  cases m with
  | opening b =>
    have hlines : b.isInline = false := hfree rfl
    rw [block, hlines]
    exact congrArg Span.stop (hb.spans_eq hlines).1
  | ending b => exact Block.endSpan_stop_eq hb.formed hb.before.ordered

/-- What is written back for a mark holds its marker. -/
theorem le_span (hb : m.block.Stands s t) :
    m.span.start ≤ m.marker.openAt ∧ m.marker.closeEnd ≤ m.span.stop := by
  have hlead : m.marker.lineStart ≤ m.marker.openAt := Nat.sub_le ..
  cases hinline : m.block.isInline with
  | false =>
    obtain ⟨hopen, hend⟩ := hb.spans_eq hinline
    cases m with
    | opening b => exact ⟨(congrArg Span.start hopen).trans_le hlead,
        (Text.lineStop_bounds t hb.opening.bound).1.trans_eq (congrArg Span.stop hopen).symm⟩
    | ending b => exact ⟨(congrArg Span.start hend).trans_le hlead,
        (Text.lineStop_bounds t hb.ending.bound).1.trans_eq (congrArg Span.stop hend).symm⟩
  | true =>
    obtain ⟨hopenStart, hopenStop, -, hendStart, hendStop⟩ := hb.inline_spans hinline
    cases m with
    | opening b => exact ⟨hopenStart.le, hopenStop⟩
    | ending b => exact ⟨hendStart, hendStop.ge⟩

/-- The extent of a marker lies in what is written back for it. -/
theorem covers_span_of_extent (hb : m.block.Stands s t) {i : Nat} (hi : m.marker.extent.Covers i) :
    m.span.Covers i :=
  ⟨(le_span hb).1.trans hi.1, hi.2.trans_le (le_span hb).2⟩

end Mark

/-! ## What stands in an inline block -/

/-- Inside of an inline block there are inline blocks only. -/
theorem Inside.isInline_of_mem {family : Family} {isInline : Bool} {depth : Nat} {p q : Marker} {marks : List Mark}
    (h : Inside t family isInline depth p marks q) (hinline : isInline) : ∀ m ∈ marks, m.block.isInline := by
  induction h with
  | nil => simp
  | block _ _ _ _ hchild _ _ _ _ _ ihInner ihRest =>
    have hchild := hchild hinline
    intro m hm
    simp only [List.mem_cons, List.mem_append] at hm
    rcases hm with rfl | hm | rfl | hm
    · exact hchild
    · exact ihInner hchild m hm
    · exact hchild
    · exact ihRest hinline m hm

namespace Document

variable {d : Document}

/-- The block of a mark of a document is one of its blocks. -/
theorem block_mem_blocks (hd : parse s t = .ok d) (hm : m ∈ d.marks) : m.block ∈ d.blocks := by
  have houter := outermost_of_parse hd
  cases m with
  | opening b => exact List.mem_filterMap.2 ⟨_, hm, rfl⟩
  | ending b => exact houter.nested.mem_blocks_of_ending hm

/-- **Around a mark of a document** there is a block exactly if it is around the other mark of the same block, too. If
the block is inline, so is that of the mark. -/
theorem surrounds_partner (hd : parse s t = .ok d) (hb : b ∈ d.blocks) (hm : m ∈ d.marks) (h : b.Surrounds m) :
    b.Surrounds m.partner ∧ (b.isInline → m.block.isInline) := by
  have houter := outermost_of_parse hd
  obtain ⟨depth, inner, henclosed, hholds⟩ := houter.exists_holds b hb
  obtain ⟨q, hinside, -⟩ := henclosed.layout
  have hsorted := sorted_marks hd
  have hinner := (hholds.mem_iff hsorted hm).2 h
  have hpartner := hinside.nested.partner_mem hinner
  have hmem : m.partner ∈ d.marks := houter.nested.partner_mem hm
  exact ⟨(hholds.mem_iff hsorted hmem).1 hpartner, fun hinline => hinside.isInline_of_mem hinline m hinner⟩

/-- The markers of a document have a width. -/
theorem openAt_lt_closeEnd (hd : parse s t = .ok d) (hm : m ∈ d.marks) : m.marker.openAt < m.marker.closeEnd :=
  ((pairwise_before hd).2 m hm).openAt_lt (usable_of_parse hd)

/-- **The span of a mark ends in front of that of a mark behind it**, or the block of the first one is an inline block
around the other. The second one is supposed not to end an inline block. -/
theorem span_le_or_surrounds (hd : parse s t = .ok d) (hm : m ∈ d.marks) (hm' : m' ∈ d.marks)
    (h : Mark.Before t m m') (hfree : m' = .ending m'.block → m'.block.isInline = false) :
    m.span.stop ≤ m'.span.start ∨ m.block.isInline ∧ m.block.Surrounds m' := by
  have hblocks := stands_of_mem_blocks hd
  have hstands := (pairwise_before hd).2
  have hstart := Mark.span_start_eq (hblocks _ (block_mem_blocks hd hm')) hfree
  have hle : ∀ n ∈ d.marks, Mark.Before t n m' → (n = .opening n.block → n.block.isInline = false) →
      n.span.stop ≤ m'.span.start := fun n hn h hfree =>
    h.span_le (hstands n hn) (hstands m' hm')
      (Mark.span_stop_eq (hblocks _ (block_mem_blocks hd hn)) hfree) hstart
  cases m with
  | ending b => exact .inl (hle _ hm h fun heq => nomatch heq)
  | opening b =>
    cases hinline : b.isInline with
    | false => exact .inl (hle _ hm h fun _ => hinline)
    | true =>
      have hb := block_mem_blocks hd hm
      have hending := (marks_of_mem_blocks hd hb).2
      rcases before_or_before hd hending hm' with rfl | hbehind | hbetween
      · exact absurd hinline (by simp [show b.isInline = false from hfree rfl])
      · -- the block has ended, and its end marker is on the free side
        have hspans := Block.spans_ordered (hblocks b hb).formed (hblocks b hb).opening (hblocks b hb).ending
          (hblocks b hb).before
        exact .inl ((hspans.2.1.trans hspans.2.2.1).trans (hle _ hending hbehind fun heq => nomatch heq))
      · exact .inr ⟨hinline, (openAt_lt_closeEnd hd hm).trans_le h.ordered,
          (openAt_lt_closeEnd hd hm').trans_le hbetween.ordered⟩

/-- **Two spans overlap only where an inline block holds a marker**: those of two marks, one before the other, are in
order, or one of the marks belongs to an inline block around the other. -/
theorem span_le_or_surrounds_or_surrounds (hd : parse s t = .ok d) (hm : m ∈ d.marks) (hm' : m' ∈ d.marks)
    (h : Mark.Before t m m') : m.span.stop ≤ m'.span.start ∨ m.block.isInline ∧ m.block.Surrounds m' ∨
      m'.block.isInline ∧ m'.block.Surrounds m := by
  by_cases hfree : m' = .ending m'.block → m'.block.isInline = false
  · exact (span_le_or_surrounds hd hm hm' h hfree).imp_right .inl
  cases m' with
  | opening c => exact absurd (fun heq => nomatch heq) hfree
  | ending c =>
    have hinline : c.isInline := by simpa [Mark.block] using hfree
    have hc : c ∈ d.blocks := block_mem_blocks hd hm'
    have hopening := (marks_of_mem_blocks hd hc).1
    obtain ⟨-, hopen, hordered, -, -⟩ := (stands_of_mem_blocks hd c hc).inline_spans hinline
    rcases before_or_before hd hm hopening with rfl | hfront | hbetween
    · exact .inl hordered
    · rcases span_le_or_surrounds hd hm hopening hfront (fun heq => nomatch heq) with hle | ⟨hminline, hsurrounds⟩
      · have hstart : c.openSpan.start ≤ c.openSpan.stop :=
          (Mark.le_span (m := .opening c) (stands_of_mem_blocks hd c hc)).1.trans
            ((openAt_lt_closeEnd hd hopening).le.trans hopen)
        exact .inl (hle.trans (hstart.trans hordered))
      · exact .inr (.inl ⟨hminline, (surrounds_partner hd (block_mem_blocks hd hm) hopening hsurrounds).1⟩)
    · exact .inr (.inr ⟨hinline, (openAt_lt_closeEnd hd hopening).trans_le hbetween.ordered,
        (openAt_lt_closeEnd hd hm).trans_le h.ordered⟩)

/-- Two spans are disjoint, or one of the two marks belongs to an inline block around the other. -/
theorem disjoint_or_surrounds (hd : parse s t = .ok d) (hm : m ∈ d.marks) (hm' : m' ∈ d.marks) (hne : m ≠ m') :
    m.span.Disjoint m'.span ∨ m.block.isInline ∧ m.block.Surrounds m' ∨
      m'.block.isInline ∧ m'.block.Surrounds m := by
  rcases before_or_before hd hm hm' with rfl | h | h
  · exact absurd rfl hne
  · exact (span_le_or_surrounds_or_surrounds hd hm hm' h).imp_left Span.disjoint_of_le
  · exact (span_le_or_surrounds_or_surrounds hd hm' hm h).imp (fun hle => (Span.disjoint_of_le hle).symm) Or.symm

/-! ## Padded documents -/

/-- **A document is padded** if each inline block is padded around each mark between its markers. -/
def Padded (d : Document) : Prop :=
  ∀ b ∈ d.blocks, b.isInline → ∀ m ∈ d.marks, b.Surrounds m → b.PaddedAround d.source m

instance (d : Document) : Decidable d.Padded :=
  inferInstanceAs (Decidable (∀ b ∈ d.blocks, _ → ∀ m ∈ d.marks, _ → _))

/-- The markers of a block around a mark stand in front of its marker and behind it. -/
theorem closeEnd_le_of_surrounds (hd : parse s t = .ok d) (hb : b ∈ d.blocks) (hm : m ∈ d.marks)
    (h : b.Surrounds m) : b.opening.closeEnd ≤ m.marker.openAt ∧ m.marker.closeEnd ≤ b.ending.openAt := by
  obtain ⟨hopening, hending⟩ := marks_of_mem_blocks hd hb
  constructor
  · rcases before_or_before hd hopening hm with rfl | hbefore | hbefore
    · exact absurd h.1 (Nat.lt_irrefl _)
    · exact hbefore.ordered
    · exact absurd h.1 ((openAt_lt_closeEnd hd hm).le.trans hbefore.ordered).not_gt
  · rcases before_or_before hd hm hending with rfl | hbefore | hbefore
    · exact absurd h.2 (Nat.lt_irrefl _)
    · exact hbefore.ordered
    · exact absurd h.2 ((openAt_lt_closeEnd hd hending).le.trans hbefore.ordered).not_gt

/-- An inline block is padded around a mark exactly if its spans leave out the marker. -/
theorem paddedAround_iff (hd : parse s t = .ok d) (hb : b ∈ d.blocks) (hinline : b.isInline) (hm : m ∈ d.marks)
    (h : b.Surrounds m) : b.PaddedAround t m ↔
      b.openSpan.stop ≤ m.marker.openAt ∧ m.marker.closeEnd ≤ b.endSpan.start :=
  (stands_of_mem_blocks hd b hb).paddedAround_iff hinline (closeEnd_le_of_surrounds hd hb hm h).1
    (openAt_lt_closeEnd hd hm) (closeEnd_le_of_surrounds hd hb hm h).2

/-- **The spans of a padded block leave out those of a mark that it is around.** -/
theorem Padded.disjoint (hpadded : d.Padded) (hd : parse s t = .ok d) (hm : m ∈ d.marks) (hm' : m' ∈ d.marks)
    (hinline : m.block.isInline) (hsurrounds : m.block.Surrounds m') : m.span.Disjoint m'.span := by
  have hb := block_mem_blocks hd hm
  have hc := block_mem_blocks hd hm'
  obtain ⟨hsurrounds', hchild⟩ := surrounds_partner hd hb hm' hsurrounds
  obtain ⟨hopening, hending⟩ := marks_of_mem_blocks hd hc
  have hbounds : ∀ n ∈ d.marks, m.block.Surrounds n →
      m.block.openSpan.stop ≤ n.marker.openAt ∧ n.marker.closeEnd ≤ m.block.endSpan.start := by
    intro n hn h
    have := hpadded _ hb hinline n hn h
    rw [source_of_parse hd] at this
    exact (paddedAround_iff hd hb hinline hn h).1 this
  -- both marks of the inner block stand between the spans, and its own spans stand between them
  have hspans := (stands_of_mem_blocks hd _ hc).inline_spans (hchild hinline)
  have hinner : m.block.openSpan.stop ≤ m'.span.start ∧ m'.span.stop ≤ m.block.endSpan.start := by
    cases m' with
    | opening c =>
      have hle := hbounds _ hm' hsurrounds
      have hle' := hbounds _ hending hsurrounds'
      have hwidth := openAt_lt_closeEnd hd hending
      simp only [Mark.marker, Mark.block, Mark.span] at *
      omega
    | ending c =>
      have hle := hbounds _ hm' hsurrounds
      have hle' := hbounds _ hopening hsurrounds'
      have hwidth := openAt_lt_closeEnd hd hopening
      simp only [Mark.marker, Mark.block, Mark.span] at *
      omega
  cases m with
  | opening b => exact Span.disjoint_of_le hinner.1
  | ending b => exact (Span.disjoint_of_le hinner.2).symm

/-- Spans that leave out the markers of others belong to padded blocks. -/
theorem padded_of_disjoint_extent (hd : parse s t = .ok d)
    (h : ∀ m ∈ d.marks, ∀ m' ∈ d.marks, m ≠ m' → m.span.Disjoint m'.marker.extent) : d.Padded := by
  intro b hb hinline m hm hsurrounds
  rw [source_of_parse hd, paddedAround_iff hd hb hinline hm hsurrounds]
  obtain ⟨hopening, hending⟩ := marks_of_mem_blocks hd hb
  obtain ⟨hopenStart, -, -, -, hendStop⟩ := (stands_of_mem_blocks hd b hb).inline_spans hinline
  obtain ⟨hfront, hback⟩ := closeEnd_le_of_surrounds hd hb hm hsurrounds
  have hwidth := openAt_lt_closeEnd hd hm
  constructor
  · have hne : Mark.opening b ≠ m := by
      rintro rfl
      exact absurd hsurrounds.1 (Nat.lt_irrefl _)
    exact (h _ hopening m hm hne).stop_le (i := m.marker.openAt) ⟨le_rfl, hwidth⟩
      (hopenStart.trans_le hsurrounds.1.le)
  · have hne : Mark.ending b ≠ m := by
      rintro rfl
      exact absurd hsurrounds.2 (Nat.lt_irrefl _)
    have hlt := (h _ hending m hm hne).lt_start (i := m.marker.closeEnd - 1)
      ⟨Nat.le_sub_one_of_lt hwidth, Nat.sub_one_lt_of_lt hwidth⟩ (by
        have := openAt_lt_closeEnd hd hending
        simp only [Mark.marker, Mark.span] at *
        omega)
    exact Nat.le_of_pred_lt hlt

/-- **The spans of a document are disjoint exactly if it is padded.** Two spans overlap only if one mark belongs to an
inline block around the other. There are no such overlaps if and only if no span has a part of another marker in it,
and if and only if each inline block has a space in front of each marker that it holds and one behind it, or no space
at all. -/
theorem disjoint_spans (hd : parse s t = .ok d) :
    (∀ m ∈ d.marks, ∀ m' ∈ d.marks, m ≠ m' → m.span.Disjoint m'.span ∨
      m.block.isInline ∧ m.block.Surrounds m' ∨ m'.block.isInline ∧ m'.block.Surrounds m) ∧
    [∀ m ∈ d.marks, ∀ m' ∈ d.marks, m ≠ m' → m.span.Disjoint m'.span,
      ∀ m ∈ d.marks, ∀ m' ∈ d.marks, m ≠ m' → m.span.Disjoint m'.marker.extent, d.Padded].TFAE := by
  refine ⟨fun m hm m' hm' hne => disjoint_or_surrounds hd hm hm' hne, ?_⟩
  tfae_have 1 → 2 := fun h m hm m' hm' hne =>
    (h m hm m' hm' hne).of_covers fun i hi =>
      Mark.covers_span_of_extent (stands_of_mem_blocks hd _ (block_mem_blocks hd hm')) hi
  tfae_have 2 → 3 := padded_of_disjoint_extent hd
  tfae_have 3 → 1 := by
    intro hpadded m hm m' hm' hne
    rcases disjoint_or_surrounds hd hm hm' hne with h | ⟨hinline, hsurrounds⟩ | ⟨hinline, hsurrounds⟩
    · exact h
    · exact hpadded.disjoint hd hm hm' hinline hsurrounds
    · exact (hpadded.disjoint hd hm' hm hinline hsurrounds).symm
  tfae_finish

/-- A block on one line around another one, with a space next to each marker. -/
def paddedText : Text := "[[[ a ]]] [[[ b ]]] [[[ end ]]] [[[ end ]]]"

/-- A block on one line whose open marker has another one right behind it. -/
def gluedText : Text := "[[[ a ]]][[[ b ]]] [[[ end ]]][[[ end ]]]"

/-- The spans of the padded document are disjoint. -/
theorem disjoint_spans_paddedText : ∃ d, parse .standard paddedText = .ok d ∧ d.marks.length = 4 ∧ d.Padded ∧
    ∀ m ∈ d.marks, ∀ m' ∈ d.marks, m ≠ m' → m.span.Disjoint m'.span := by
  obtain ⟨d, hd, hlength, hpadded⟩ : ∃ d, parse .standard paddedText = .ok d ∧ d.marks.length = 4 ∧
      d.Padded := ⟨_, rfl, by decide +kernel, by decide +kernel⟩
  exact ⟨d, hd, hlength, hpadded, ((disjoint_spans hd).2.out 2 0).1 hpadded⟩

/-- **Spans may overlap**: what is written back for the first marker of the glued document reaches to the space in
the header of the second one. -/
theorem not_disjoint_span : ¬ ∀ (s : Settings) (t : Text) (d : Document), parse s t = .ok d →
    ∀ m ∈ d.marks, ∀ m' ∈ d.marks, m ≠ m' → m.span.Disjoint m'.span := by
  intro h
  obtain ⟨d, hd, m, hm, m', hm', hne, hspan, hspan'⟩ : ∃ d, parse .standard gluedText = .ok d ∧
      ∃ m ∈ d.marks, ∃ m' ∈ d.marks, m ≠ m' ∧ m.span = ⟨0, 12⟩ ∧ m'.span = ⟨9, 18⟩ :=
    ⟨_, rfl, by decide +kernel⟩
  refine h _ _ d hd m hm m' hm' hne 9 ⟨?_, ?_⟩
  · rw [hspan]
    exact ⟨by decide, by decide⟩
  · rw [hspan']
    exact ⟨by decide, by decide⟩

end Document

end Regen
