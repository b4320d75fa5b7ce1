import Mathlib.Data.List.Chain
import Regen.Proofs.Reading

/-!
# The order of blocks

Markers stand one behind the other, but what is written back with a marker reaches beyond it: up
to the first space of an inline body, or over all of the lines that the marker stands on. That
these spans do not overlap for blocks of one depth is due to the layout rules. **A marker of a block
of whole lines shares no line with another marker** (`Mark.Apart`), so its lines belong to it alone,
while the span of an inline block ends where its markers do.

Blocks of different depth may well overlap. The first space of an inline body can lie inside the
header of a marker in it, and then the span of the outer marker holds a part of the inner one.
-/

namespace Regen

open Pairing

/-! ## Stretches with a line feed -/

namespace Text

/-- A stretch that holds a byte goes on holding it when it is widened. -/
theorem mem_extract_mono {b : UInt8} {t : Text} {i j i' j' : Nat} (hi : i' ≤ i) (hj : j ≤ j')
    (h : b ∈ t.extract i j) : b ∈ t.extract i' j' := by
  rw [List.mem_iff_getElem?] at h ⊢
  obtain ⟨n, hn⟩ := h
  simp only [List.extract_eq_take_drop, List.getElem?_take, List.getElem?_drop] at hn ⊢
  split at hn
  · refine ⟨i - i' + n, ?_⟩
    rw [if_pos (by omega), show i' + (i - i' + n) = i + n by omega, hn]
  · cases hn

/-- The line of an offset ends between it and the end of the text. -/
theorem lineStop_bounds (t : Text) {i : Nat} (hi : i ≤ t.length) :
    i ≤ lineStop t i ∧ lineStop t i ≤ t.length := by
  obtain ⟨x, y, rfl, rfl⟩ : ∃ x y, t = x ++ y ∧ i = x.length :=
    ⟨t.take i, t.drop i, (List.take_append_drop i t).symm, by simp [hi]⟩
  rcases notMem_or_eq_newline y with hy | ⟨u, v, rfl, hu⟩
  · rw [lineStop_append_of_notMem x hy]
    simp
  · rw [← List.append_assoc, lineStop_append_newline x v hu]
    simp only [List.length_append, List.length_cons]
    omega

/-- **A line feed between two offsets** ends the line of the first one in front of that of the
second. -/
theorem lineStop_le_of_newline {t : Text} {i j : Nat} (hj : j ≤ t.length)
    (h : newline ∈ t.extract i j) : lineStop t i ≤ j - (lastLine (t.take j)).length := by
  have hij : i ≤ j := by
    by_contra hlt
    rw [List.extract_eq_take_drop, show j - i = 0 by omega] at h
    simp at h
  obtain ⟨x, y, z, rfl, rfl, rfl⟩ : ∃ x y z, t = x ++ y ++ z ∧ i = x.length ∧
      j = (x ++ y).length := by
    refine ⟨t.take i, (t.take j).drop i, t.drop j, ?_, ?_, ?_⟩
    · conv_lhs => rw [← List.take_append_drop j t, ← List.take_append_drop i (t.take j),
        List.take_take, min_eq_left hij]
    · simp; omega
    · simp; omega
  have hy : newline ∈ y := by
    simpa using h
  rcases notMem_or_eq_newline y with hno | ⟨u, v, rfl, hu⟩
  · exact absurd hy hno
  · have hstop := lineStop_append_newline x (v ++ z) hu
    rw [List.take_left, show x ++ (u ++ newline :: v) ++ z = x ++ u ++ newline :: (v ++ z) by simp,
      hstop, lastLine_append_of_mem x hy]
    have hle := length_lastLine_append_newline_le u v
    simp only [List.length_append, List.length_cons]
    omega

end Text

/-! ## Nested marks -/

/-- Marks nested as brackets are, the outermost blocks having the given depth. -/
inductive Nested (t : Text) : (depth : Nat) → List Mark → Prop
  /-- No marks. -/
  | nil {depth : Nat} : Nested t depth []
  /-- A block, the blocks inside it and what follows it. -/
  | block {depth : Nat} {b : Block} {inner rest : List Mark}
      (hformed : b = Block.ofMarkers t b.opening b.ending depth b.isInline)
      (hinner : Nested t (depth + 1) inner) (hrest : Nested t depth rest) :
      Nested t depth (.opening b :: (inner ++ .ending b :: rest))

variable {t : Text}

theorem Inside.nested {family : Family} {isInline : Bool} {depth : Nat} {p q : Marker}
    {marks : List Mark} (h : Inside t family isInline depth p marks q) :
    Nested t depth marks := by
  induction h with
  | nil => exact .nil
  | block _ _ hformed _ _ _ _ _ _ _ ihInner ihRest => exact .block hformed ihInner ihRest

theorem Outermost.nested {previous? : Option Block} {marks : List Mark}
    (h : Outermost t previous? marks) : Nested t 1 marks := by
  induction h with
  | nil => exact .nil
  | block henclosed _ _ ih =>
    obtain ⟨q, hinside, -⟩ := henclosed.layout
    exact .block henclosed.formed hinside.nested ih

/-- The blocks among marks, in the order of their open markers. -/
def Mark.blocks (marks : List Mark) : List Block := marks.filterMap Mark.opened?

namespace Mark

@[simp] theorem blocks_nil : blocks [] = [] := rfl

@[simp] theorem blocks_opening (b : Block) (marks : List Mark) :
    blocks (.opening b :: marks) = b :: blocks marks := rfl

@[simp] theorem blocks_ending (b : Block) (marks : List Mark) :
    blocks (.ending b :: marks) = blocks marks := rfl

@[simp] theorem blocks_append (marks marks' : List Mark) :
    blocks (marks ++ marks') = blocks marks ++ blocks marks' := List.filterMap_append

theorem opening_mem_of_mem_blocks {marks : List Mark} {b : Block} (h : b ∈ blocks marks) :
    .opening b ∈ marks := by
  obtain ⟨m, hm, hb⟩ := List.mem_filterMap.1 h
  cases m <;> cases hb
  exact hm

end Mark

namespace Nested

variable {depth : Nat} {marks : List Mark}

/-- The blocks are those of their markers, and at least as deep as the outermost of them. -/
theorem formed (h : Nested t depth marks) : ∀ b ∈ Mark.blocks marks, depth ≤ b.depth ∧
    b = Block.ofMarkers t b.opening b.ending b.depth b.isInline := by
  induction h with
  | nil => simp
  | @block depth b inner rest hformed _ _ ihInner ihRest =>
    have hdepth : b.depth = depth := by rw [hformed, Block.ofMarkers_depth]
    intro c hc
    simp only [Mark.blocks_opening, Mark.blocks_append, Mark.blocks_ending, List.mem_cons,
      List.mem_append] at hc
    rcases hc with rfl | hc | hc
    · exact ⟨hdepth.ge, by rwa [hdepth]⟩
    · exact ⟨Nat.le_of_succ_le (ihInner c hc).1, (ihInner c hc).2⟩
    · exact ihRest c hc

/-- What holds between marks and those behind them holds between the two marks of a block. -/
theorem of_block {R : Mark → Mark → Prop} (h : Nested t depth marks) (hR : marks.Pairwise R) :
    ∀ b ∈ Mark.blocks marks, .ending b ∈ marks ∧ R (.opening b) (.ending b) := by
  induction h with
  | nil => simp
  | @block depth b inner rest _ _ _ ihInner ihRest =>
    obtain ⟨hopen, hR⟩ := List.pairwise_cons.1 hR
    obtain ⟨hinner, hrest, -⟩ := List.pairwise_append.1 hR
    intro c hc
    simp only [Mark.blocks_opening, Mark.blocks_append, Mark.blocks_ending, List.mem_cons,
      List.mem_append] at hc
    rcases hc with rfl | hc | hc
    · exact ⟨by simp, hopen _ (by simp)⟩
    · obtain ⟨hmem, h⟩ := ihInner hinner c hc
      exact ⟨by simp [hmem], h⟩
    · obtain ⟨hmem, h⟩ := ihRest hrest.of_cons c hc
      exact ⟨by simp [hmem], h⟩

/-- The end mark of a block is among marks only if the block is. -/
theorem mem_blocks_of_ending (h : Nested t depth marks) {b : Block} (hb : .ending b ∈ marks) :
    b ∈ Mark.blocks marks := by
  induction h with
  | nil => cases hb
  | block _ _ _ ihInner ihRest =>
    rw [Mark.blocks_opening, Mark.blocks_append, Mark.blocks_ending, List.mem_cons, List.mem_append]
    rcases (by simpa using hb) with hb | rfl | hb
    · exact .inr (.inl (ihInner hb))
    · exact .inl rfl
    · exact .inr (.inr (ihRest hb))

/-- **What holds between marks and those behind them holds between blocks of one depth**, from the
end marker of the one to the open marker of the next. -/
theorem pairwise_depth {R : Mark → Mark → Prop} (h : Nested t depth marks) (hR : marks.Pairwise R)
    (k : Nat) :
    ((Mark.blocks marks).filter (·.depth = k)).Pairwise fun b c => R (.ending b) (.opening c) := by
  induction h with
  | nil => simp
  | @block depth b inner rest hformed hinner hrest ihInner ihRest =>
    have hdepth : b.depth = depth := by rw [hformed, Block.ofMarkers_depth]
    obtain ⟨-, hR⟩ := List.pairwise_cons.1 hR
    obtain ⟨hRinner, hRrest, hRacross⟩ := List.pairwise_append.1 hR
    obtain ⟨hRend, hRrest⟩ := List.pairwise_cons.1 hRrest
    simp only [Mark.blocks_opening, Mark.blocks_append, Mark.blocks_ending, List.filter_append,
      List.filter_cons]
    by_cases hk : depth = k
    · -- the blocks inside `b` are deeper
      have hdeeper : (Mark.blocks inner).filter (·.depth = k) = [] := by
        rw [List.filter_eq_nil_iff]
        intro c hc
        have := (hinner.formed c hc).1
        simp
        omega
      rw [hdeeper, if_pos (by simp [hdepth, hk]), List.nil_append]
      refine List.pairwise_cons.2 ⟨fun c hc => ?_, ihRest hRrest⟩
      exact hRend _ (Mark.opening_mem_of_mem_blocks (List.mem_filter.1 hc).1)
    · rw [if_neg (by simp [hdepth, hk])]
      refine List.pairwise_append.2 ⟨ihInner hRinner, ihRest hRrest, fun c hc c' hc' => ?_⟩
      have hend := (hinner.of_block hRinner c (List.mem_filter.1 hc).1).1
      have hopen := Mark.opening_mem_of_mem_blocks (List.mem_filter.1 hc').1
      exact hRacross _ hend _ (by simp [hopen])

end Nested

/-- The outermost blocks among marks. -/
def Mark.outermost (marks : List Mark) : List Block := (blocks marks).filter (·.depth = 1)

/-- Nothing is inside a block if all blocks are as deep as it is. -/
theorem Encloses.eq_nil {t : Text} {depth : Nat} {b : Block} {inner : List Mark}
    (h : Encloses t depth b inner) (hflat : ∀ b ∈ Mark.blocks inner, b.depth = depth) : inner = [] := by
  obtain ⟨q, hinside, -⟩ := h.layout
  cases inner with
  | nil => rfl
  | cons m inner =>
    have hdeeper := hinside.nested.formed
    cases hinside with
    | @block _ _ _ _ _ _ c inner rest =>
      have hle := (hdeeper c (by simp)).1
      have heq := hflat c (by simp)
      omega

/-- The outermost blocks of a text are the first of its marks and those behind it. -/
theorem Mark.outermost_block {t : Text} {b : Block} {inner rest : List Mark}
    (h : Encloses t 1 b inner) :
    outermost (.opening b :: (inner ++ .ending b :: rest)) = b :: outermost rest := by
  obtain ⟨q, hinside, -⟩ := h.layout
  have hdepth : b.depth = 1 := by rw [h.formed, Block.ofMarkers_depth]
  have hdeeper : (blocks inner).filter (·.depth = 1) = [] := by
    rw [List.filter_eq_nil_iff]
    intro c hc
    have := (hinside.nested.formed c hc).1
    simp
    omega
  simp [outermost, hdepth, hdeeper]

/-- Each outermost block encloses the marks inside it. -/
theorem Outermost.exists_encloses {t : Text} {previous? : Option Block} {marks : List Mark}
    (h : Outermost t previous? marks) : ∀ b ∈ Mark.outermost marks, ∃ inner, Encloses t 1 b inner := by
  induction h with
  | nil => simp [Mark.outermost]
  | @block previous? b inner rest henclosed _ _ ih =>
    rw [Mark.outermost_block henclosed, List.forall_mem_cons]
    exact ⟨⟨inner, henclosed⟩, ih⟩

/-- **Where a block stands with respect to an outermost one**: it is that block, or inside it, or in front of it
or behind it. `R` is what holds between marks and those behind them. -/
theorem Outermost.block_cases {t : Text} {R : Mark → Mark → Prop} {previous? : Option Block}
    {marks : List Mark} (h : Outermost t previous? marks) (hR : marks.Pairwise R) {g : Block}
    (hg : g ∈ Mark.outermost marks) : ∀ b ∈ Mark.blocks marks, b = g ∨
      R (.opening g) (.opening b) ∧ R (.ending b) (.ending g) ∨ R (.ending b) (.opening g) ∨
      R (.ending g) (.opening b) := by
  induction h with
  | nil => simp
  | @block previous? a inner rest henclosed _ hrest ih =>
    obtain ⟨q, hinside, -⟩ := henclosed.layout
    obtain ⟨hRopening, hR⟩ := List.pairwise_cons.1 hR
    obtain ⟨hRinner, hRrest, hRacross⟩ := List.pairwise_append.1 hR
    obtain ⟨hRending, hRrest⟩ := List.pairwise_cons.1 hRrest
    rw [Mark.outermost_block henclosed, List.mem_cons] at hg
    intro b hb
    simp only [Mark.blocks_opening, Mark.blocks_append, Mark.blocks_ending, List.mem_cons,
      List.mem_append] at hb
    rcases hg with rfl | hg
    · rcases hb with rfl | hb | hb
      · exact .inl rfl
      · have hending := (hinside.nested.of_block hRinner b hb).1
        have hopening := Mark.opening_mem_of_mem_blocks hb
        exact .inr (.inl ⟨hRopening _ (by simp [hopening]), hRacross _ hending _ (by simp)⟩)
      · exact .inr (.inr (.inr (hRending _ (Mark.opening_mem_of_mem_blocks hb))))
    · have hopening := Mark.opening_mem_of_mem_blocks (List.mem_filter.1 hg).1
      rcases hb with rfl | hb | hb
      · exact .inr (.inr (.inl (hRending _ hopening)))
      · have hending := (hinside.nested.of_block hRinner b hb).1
        exact .inr (.inr (.inl (hRacross _ hending _ (by simp [hopening]))))
      · exact ih hRrest hg b hb

/-! ## Lines of their own -/

/-- **Two marks are apart** if a line ends between their markers, or if both belong to inline
blocks. -/
def Mark.Apart (t : Text) (m m' : Mark) : Prop :=
  onSameLine t m.marker m'.marker → m.block.isInline ∧ m'.block.isInline

/-- Marks inside a block are apart, each from the next. -/
theorem Inside.isChain {family : Family} {isInline : Bool} {depth : Nat} {p q : Marker}
    {marks : List Mark} (h : Inside t family isInline depth p marks q) (pm : Mark)
    (hpm : pm.marker = p) (hinline : isInline → pm.block.isInline) :
    (pm :: marks).IsChain (Mark.Apart t) ∧
      ∀ qm ∈ (pm :: marks).getLast?, qm.marker = q ∧ (isInline → qm.block.isInline) := by
  induction h generalizing pm with
  | nil => simpa using ⟨hpm, hinline⟩
  | @block family isInline depth p q r b inner rest _ _ _ hline hchild _ _ hclose _ _ ihInner
      ihRest =>
    obtain ⟨hinner, hlast⟩ := @ihInner (.opening b) rfl id
    obtain ⟨hrest, hlast'⟩ := @ihRest (.ending b) rfl hchild
    rw [List.isChain_cons_cons, ← List.cons_append, List.isChain_append]
    refine ⟨⟨?_, hinner, hrest, ?_⟩, ?_⟩
    · intro hsame
      rw [hpm, Mark.marker, hline] at hsame
      exact ⟨hinline hsame, hchild hsame⟩
    · rintro qm hqm _ ⟨⟩ hsame
      obtain ⟨hq, hqinline⟩ := hlast qm hqm
      rw [hq, Mark.marker, hclose] at hsame
      exact ⟨hqinline hsame, hsame⟩
    · intro qm hqm
      refine hlast' qm ?_
      rw [← List.cons_append, List.getLast?_append_of_ne_nil _ (List.cons_ne_nil _ _)] at hqm
      exact hqm

/-- Outermost marks are apart, each from the next. -/
theorem Outermost.isChain {previous? : Option Block} {marks : List Mark}
    (h : Outermost t previous? marks) :
    (previous?.toList.map Mark.ending ++ marks).IsChain (Mark.Apart t) := by
  induction h with
  | @nil previous? => cases previous? <;> simp
  | @block previous? b inner rest henclosed hfits _ ih =>
    obtain ⟨q, hinside, hclose, -⟩ := henclosed.layout
    obtain ⟨hinner, hlast⟩ := hinside.isChain (.opening b) rfl id
    have hblock : (.opening b :: (inner ++ .ending b :: rest)).IsChain (Mark.Apart t) := by
      rw [← List.cons_append, List.isChain_append]
      refine ⟨hinner, ih, ?_⟩
      rintro qm hqm _ ⟨⟩ hsame
      obtain ⟨hq, hqinline⟩ := hlast qm hqm
      rw [hq, Mark.marker, hclose] at hsame
      exact ⟨hqinline hsame, hsame⟩
    cases previous? with
    | none => exact hblock
    | some a => exact List.isChain_cons_cons.2 ⟨hfits a rfl, hblock⟩

/-- **One mark stands before another**: its marker ends in front of the other one, and if either
belongs to a block of whole lines, a line ends between them. -/
structure Mark.Before (t : Text) (m m' : Mark) : Prop where
  /-- The markers do not overlap. -/
  ordered : m.marker.closeEnd ≤ m'.marker.openAt
  /-- Blocks of whole lines have their lines for themselves. -/
  newline : m.block.isInline = false ∨ m'.block.isInline = false →
    Text.newline ∈ t.extract m.marker.closeEnd m'.marker.openAt

/-- Marks that are apart, each from the next, stand one before the other. -/
theorem Mark.pairwise_before {marks : List Mark} (hchain : marks.IsChain (Mark.Apart t))
    (hwidth : ∀ m ∈ marks, m.marker.openAt ≤ m.marker.closeEnd)
    (hordered : (marks.map Mark.marker).Pairwise (·.closeEnd ≤ ·.openAt)) :
    marks.Pairwise (Mark.Before t) := by
  induction marks with
  | nil => exact .nil
  | cons m marks ih =>
    obtain ⟨hfirst, hordered⟩ := List.pairwise_cons.1 hordered
    have ih := ih hchain.tail (fun m' hm' => hwidth m' (by simp [hm'])) hordered
    refine List.pairwise_cons.2 ⟨fun m' hm' => ⟨hfirst _ (List.mem_map_of_mem hm'), ?_⟩, ih⟩
    intro hlines
    cases marks with
    | nil => cases hm'
    | cons r rest =>
      have hr : m.marker.closeEnd ≤ r.marker.openAt := hfirst _ (by simp)
      have hwidth : r.marker.openAt ≤ r.marker.closeEnd := hwidth r (by simp)
      have hnext : m.block.isInline = false ∨ r.block.isInline = false →
          Text.newline ∈ t.extract m.marker.closeEnd r.marker.openAt := by
        intro hlines
        by_contra hno
        have happart := (List.isChain_cons_cons.1 hchain).1 (by simpa [onSameLine] using hno)
        simp [happart] at hlines
      rcases List.mem_cons.1 hm' with rfl | hm'
      · exact hnext hlines
      · have hbefore := (List.pairwise_cons.1 ih).1 m' hm'
        rcases hlines with hlines | hlines
        · exact Text.mem_extract_mono le_rfl (hwidth.trans hbefore.ordered) (hnext (.inl hlines))
        · exact Text.mem_extract_mono (hr.trans hwidth) le_rfl (hbefore.newline (.inr hlines))

/-- **The markers of a document** stand in its text one before the other. -/
theorem Document.pairwise_before {s : Settings} {d : Document} (hd : Document.parse s t = .ok d) :
    d.marks.Pairwise (Mark.Before t) ∧ ∀ m ∈ d.marks, m.marker.Stands s t := by
  have houter := Document.outermost_of_parse hd
  obtain ⟨ls, -, rfl, hread⟩ := Document.exists_lexed_of_parse hd
  obtain ⟨hstands, hordered⟩ := Lexeme.stands_of_markersFrom hread
  have hstands : ∀ m ∈ d.marks, m.marker.Stands s (Lexeme.textOf s ls) := by
    intro m hm
    simpa using (hstands _ (List.mem_map_of_mem hm)).1
  exact ⟨Mark.pairwise_before (by simpa using houter.isChain) (fun m hm => (hstands m hm).openAt_le) hordered,
    hstands⟩

/-- **Of two marks of a document** one stands before the other. -/
theorem Document.before_or_before {s : Settings} {d : Document} (hd : Document.parse s t = .ok d)
    {m m' : Mark} (hm : m ∈ d.marks) (hm' : m' ∈ d.marks) :
    m = m' ∨ Mark.Before t m m' ∨ Mark.Before t m' m := by
  have : Std.Symm fun m m' => m = m' ∨ Mark.Before t m m' ∨ Mark.Before t m' m :=
    ⟨fun _ _ h => h.imp Eq.symm Or.symm⟩
  have hbefore := (Document.pairwise_before hd).1.imp fun {m m'} (h : Mark.Before t m m') =>
    (.inr (.inl h) : m = m' ∨ Mark.Before t m m' ∨ Mark.Before t m' m)
  exact hbefore.forall_of_forall (fun m _ => .inl rfl) hm hm'

/-- The marks of a document are those of its blocks. -/
theorem Document.marks_of_mem_blocks {s : Settings} {d : Document} (hd : Document.parse s t = .ok d)
    {b : Block} (hb : b ∈ d.blocks) : .opening b ∈ d.marks ∧ .ending b ∈ d.marks := by
  have houter := Document.outermost_of_parse hd
  exact ⟨Mark.opening_mem_of_mem_blocks hb,
    (houter.nested.of_block (Document.pairwise_before hd).1 b hb).1⟩

/-! ## Spans -/

namespace Text

theorem byteIn?_bounds {b : UInt8} {t : Text} {i j k : Nat} (h : byteIn? b t i j = some k) :
    i ≤ k ∧ k < j := by
  obtain ⟨n, hn, rfl⟩ := Option.map_eq_some_iff.1 h
  obtain ⟨x, z, hxz, rfl, -⟩ := idxOf?_eq_some.1 hn
  have hlen := congrArg List.length hxz
  simp at hlen
  omega

theorem lastByteIn?_bounds {b : UInt8} {t : Text} {i j k : Nat}
    (h : lastByteIn? b t i j = some k) : i ≤ k ∧ k < j := by
  obtain ⟨n, hn, rfl⟩ := Option.map_eq_some_iff.1 h
  obtain ⟨x, z, hxz, rfl, -⟩ := lastIdxOf?_eq_some.1 hn
  have hlen := congrArg List.length hxz
  simp at hlen
  omega

end Text

/-- The spans of an inline block begin and end with its markers, and the first one ends where the
second one begins, or in front of it. -/
theorem Block.inlineOf_spans {opening ending : Marker} (depth : Nat)
    (h : opening.closeEnd ≤ ending.openAt) :
    (inlineOf t opening ending depth).openSpan.start = opening.openAt ∧
      opening.closeEnd ≤ (inlineOf t opening ending depth).openSpan.stop ∧
      (inlineOf t opening ending depth).openSpan.stop
        ≤ (inlineOf t opening ending depth).endSpan.start ∧
      (inlineOf t opening ending depth).endSpan.start ≤ ending.openAt ∧
      (inlineOf t opening ending depth).endSpan.stop = ending.closeEnd := by
  unfold inlineOf
  split
  · exact ⟨rfl, le_rfl, h, le_rfl, rfl⟩
  · rename_i first hfirst
    have hfirst := Text.byteIn?_bounds hfirst
    split
    · exact ⟨rfl, hfirst.1, hfirst.2.le, le_rfl, rfl⟩
    · rename_i last hlast
      have hlast := Text.lastByteIn?_bounds hlast
      refine ⟨rfl, hfirst.1, ?_, ?_, rfl⟩
      · show first ≤ last + 1
        omega
      · show last + 1 ≤ ending.openAt
        omega

/-- The lines in front of a marker end in front of its own if one of them does. -/
theorem Marker.Stands.lineStop_le {s : Settings} {m : Marker} (hm : m.Stands s t) {i : Nat}
    (h : Text.newline ∈ t.extract i m.openAt) : Text.lineStop t i ≤ m.lineStart := by
  rw [Marker.lineStart, hm.lead]
  exact Text.lineStop_le_of_newline (hm.openAt_le.trans hm.bound) h

/-- **The spans of a block are in order.** -/
theorem Block.spans_ordered {s : Settings} {b : Block}
    (hformed : b = ofMarkers t b.opening b.ending b.depth b.isInline)
    (ho : b.opening.Stands s t) (he : b.ending.Stands s t)
    (h : Mark.Before t (.opening b) (.ending b)) :
    b.openSpan.start ≤ b.openSpan.stop ∧ b.openSpan.stop ≤ b.endSpan.start ∧
      b.endSpan.start ≤ b.endSpan.stop ∧ b.endSpan.stop ≤ t.length := by
  have hordered : b.opening.closeEnd ≤ b.ending.openAt := h.ordered
  have howidth := ho.width
  have hewidth := he.width
  have hbound := he.bound
  cases hinline : b.isInline with
  | true =>
    obtain ⟨h₁, h₂, h₃, h₄, h₅⟩ := inlineOf_spans (t := t) b.depth hordered
    rw [hinline, show ofMarkers t b.opening b.ending b.depth true
      = inlineOf t b.opening b.ending b.depth from rfl] at hformed
    rw [← hformed] at h₁ h₂ h₃ h₄ h₅
    omega
  | false =>
    have hlines : Text.lineStop t b.opening.closeEnd ≤ b.ending.lineStart :=
      he.lineStop_le (h.newline (.inl hinline))
    have hostop := Text.lineStop_bounds t (show b.opening.closeEnd ≤ t.length by omega)
    have hestop := Text.lineStop_bounds t hbound
    rw [hinline] at hformed
    rw [hformed]
    show b.opening.lineStart ≤ Text.lineStop t b.opening.closeEnd ∧
      Text.lineStop t b.opening.closeEnd ≤ b.ending.lineStart ∧
      b.ending.lineStart ≤ Text.lineStop t b.ending.closeEnd ∧
      Text.lineStop t b.ending.closeEnd ≤ t.length
    unfold Marker.lineStart at hlines ⊢
    omega

/-- What is written back with an open marker starts with it, or with its line. -/
theorem Block.openSpan_start_eq {b : Block} (hb : b = ofMarkers t b.opening b.ending b.depth b.isInline)
    (hordered : b.opening.closeEnd ≤ b.ending.openAt) :
    b.openSpan.start = if b.isInline then b.opening.openAt else b.opening.lineStart := by
  have hstart : ∀ isInline, (ofMarkers t b.opening b.ending b.depth isInline).openSpan.start
      = if isInline then b.opening.openAt else b.opening.lineStart := by
    intro isInline
    cases isInline with
    | true => exact (inlineOf_spans b.depth hordered).1
    | false => rfl
  rw [hb, hstart, ← hb]

/-- What is written back with an end marker ends with it, or with its line. -/
theorem Block.endSpan_stop_eq {b : Block} (hb : b = ofMarkers t b.opening b.ending b.depth b.isInline)
    (hordered : b.opening.closeEnd ≤ b.ending.openAt) : b.endSpan.stop
      = if b.isInline then b.ending.closeEnd else Text.lineStop t b.ending.closeEnd := by
  have hstop : ∀ isInline, (ofMarkers t b.opening b.ending b.depth isInline).endSpan.stop
      = if isInline then b.ending.closeEnd else Text.lineStop t b.ending.closeEnd := by
    intro isInline
    cases isInline with
    | true => exact (inlineOf_spans b.depth hordered).2.2.2.2
    | false => rfl
  rw [hb, hstop, ← hb]

/-- **The spans of two marks are in order** if neither of them reaches to the padding of an inline block. -/
theorem Mark.Before.span_le {s : Settings} {m m' : Mark} (h : Before t m m') (hm : m.marker.Stands s t)
    (hm' : m'.marker.Stands s t)
    (hstop : m.span.stop = if m.block.isInline then m.marker.closeEnd else Text.lineStop t m.marker.closeEnd)
    (hstart : m'.span.start = if m'.block.isInline then m'.marker.openAt else m'.marker.lineStart) :
    m.span.stop ≤ m'.span.start := by
  rw [hstop, hstart]
  by_cases hinline : m.block.isInline = true ∧ m'.block.isInline = true
  · rw [if_pos hinline.1, if_pos hinline.2]
    exact h.ordered
  · have hlines : Text.lineStop t m.marker.closeEnd ≤ m'.marker.lineStart :=
      hm'.lineStop_le (h.newline (by
        by_contra hno
        exact hinline (by simpa using hno)))
    have hordered := h.ordered
    have hbound := Text.lineStop_bounds t hm.bound
    have hlead : m'.marker.lineStart ≤ m'.marker.openAt := Nat.sub_le ..
    split <;> split <;> omega

/-- **The spans of two blocks are in order** if the one ends before the other is opened. -/
theorem Block.spans_disjoint {s : Settings} {b c : Block}
    (hb : b = ofMarkers t b.opening b.ending b.depth b.isInline)
    (hc : c = ofMarkers t c.opening c.ending c.depth c.isInline)
    (hbordered : b.opening.closeEnd ≤ b.ending.openAt)
    (hcordered : c.opening.closeEnd ≤ c.ending.openAt)
    (hbe : b.ending.Stands s t) (hco : c.opening.Stands s t)
    (h : Mark.Before t (.ending b) (.opening c)) : b.endSpan.stop ≤ c.openSpan.start :=
  h.span_le hbe hco (endSpan_stop_eq hb hbordered) (openSpan_start_eq hc hcordered)

/-- **A block that stands in a text**: it is the one of its two markers, which stand there one before the
other. -/
structure Block.Stands (s : Settings) (t : Text) (b : Block) : Prop where
  /-- Its spans and its body are those of its markers. -/
  formed : b = ofMarkers t b.opening b.ending b.depth b.isInline
  /-- The open marker stands in the text. -/
  opening : b.opening.Stands s t
  /-- The end marker does. -/
  ending : b.ending.Stands s t
  /-- The open marker stands before the end marker. -/
  before : Mark.Before t (.opening b) (.ending b)

/-- The spans of a block of whole lines are the lines of its markers. -/
theorem Block.Stands.spans_eq {s : Settings} {b : Block} (hb : b.Stands s t) (hlines : b.isInline = false) :
    b.openSpan = ⟨b.opening.lineStart, Text.lineStop t b.opening.closeEnd⟩ ∧
      b.endSpan = ⟨b.ending.lineStart, Text.lineStop t b.ending.closeEnd⟩ := by
  have hformed := hb.formed
  rw [hlines] at hformed
  rw [hformed]
  exact ⟨rfl, rfl⟩

/-- The blocks of a document stand in its text. -/
theorem Document.stands_of_mem_blocks {s : Settings} {d : Document} (hd : Document.parse s t = .ok d) :
    ∀ b ∈ d.blocks, b.Stands s t := by
  obtain ⟨hbefore, hstands⟩ := Document.pairwise_before hd
  have houter := Document.outermost_of_parse hd
  intro b hb
  obtain ⟨hending, h⟩ := houter.nested.of_block hbefore b hb
  exact ⟨(houter.nested.formed b hb).2, hstands _ (Mark.opening_mem_of_mem_blocks hb),
    hstands _ hending, h⟩

/-- **Blocks of one depth follow one another**: their spans are in order, and so are those of each
block and of the next. -/
theorem Document.spans_ordered {s : Settings} {d : Document} (hd : Document.parse s t = .ok d)
    (k : Nat) :
    (∀ b ∈ d.blocks.filter (·.depth = k), b.openSpan.start ≤ b.openSpan.stop ∧
      b.openSpan.stop ≤ b.endSpan.start ∧ b.endSpan.start ≤ b.endSpan.stop ∧
      b.endSpan.stop ≤ t.length) ∧
    (d.blocks.filter (·.depth = k)).Pairwise fun b c => b.endSpan.stop ≤ c.openSpan.start := by
  obtain ⟨hbefore, -⟩ := Document.pairwise_before hd
  have houter := Document.outermost_of_parse hd
  have hblock := Document.stands_of_mem_blocks hd
  refine ⟨fun b hb => ?_, ?_⟩
  · have hb := hblock b (List.mem_filter.1 hb).1
    exact Block.spans_ordered hb.formed hb.opening hb.ending hb.before
  · refine (houter.nested.pairwise_depth hbefore k).imp_of_mem fun {b c} hb hc h => ?_
    have hb := hblock b (List.mem_filter.1 hb).1
    have hc := hblock c (List.mem_filter.1 hc).1
    exact Block.spans_disjoint hb.formed hc.formed hb.before.ordered hc.before.ordered hb.ending
      hc.opening h

end Regen
