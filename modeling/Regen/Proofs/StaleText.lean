import Regen.Proofs.Exchange
import Regen.Proofs.Likeness

/-!
# Generated text is not read

What stands in a generation block was generated once, and is about to be generated anew. It must have no
influence on what takes its place, nor on anything else. If the block takes whole lines and there is no
opener in them, it has none: whatever other lines stand there instead, as long as they hold no opener
either, the text is read as before, and comes to the same output, or to an error of the same kind
(`Document.generate_of_stale`).

The blocks of the text with the other lines are those of the text, remade of their markers. A block in front
of the lines stays as it is, and one behind them is shifted. The generation block itself has another body,
but nothing asks for that: only the bodies of edits are taken from a text. And no other block reaches across
the lines, since the block is outermost.
-/

namespace Regen

open Text (newline shift Whole)

section

variable {s : Settings} {front old new back : Text} {b g : Block}

/-! ## Remade blocks -/

/-- The lead of a marker lies behind whole lines, if the marker does. -/
theorem Marker.Stands.lead_le {m : Marker} {x y : Text} (hm : m.Stands s (x ++ y)) (hx : x.Whole)
    (hle : x.length ≤ m.openAt) : x.length + m.lead.length ≤ m.openAt := by
  have htake : (x ++ y).take m.openAt = x ++ y.take (m.openAt - x.length) := by
    rw [List.take_append, List.take_of_length_le hle]
  have hlast : (Text.lastLine (x ++ y.take (m.openAt - x.length))).length
      ≤ (y.take (m.openAt - x.length)).length := by
    by_cases hy : newline ∈ y.take (m.openAt - x.length)
    · rw [Text.lastLine_append_of_mem _ hy]
      exact (Text.lastLine_suffix _).length_le
    · rw [Text.lastLine_append_of_notMem _ hy, hx.lastLine_eq, List.nil_append]
  rw [hm.lead, htake]
  rw [List.length_take] at hlast
  omega

/-- The lines in front of that of a marker are whole. -/
theorem Marker.Stands.whole_take {m : Marker} {t : Text} (hm : m.Stands s t) : Whole (t.take m.lineStart) := by
  obtain ⟨u, hu, hwhole⟩ := Text.exists_whole_lastLine (t.take m.openAt)
  have hwidth := hm.width
  have hbound := hm.bound
  have hlength := congrArg List.length hu
  rw [List.length_take, List.length_append, ← hm.lead, min_eq_left (by omega)] at hlength
  have hstart : m.lineStart = u.length := by
    rw [Marker.lineStart]
    omega
  have hle : m.lineStart ≤ m.openAt := Nat.sub_le ..
  rw [← min_eq_left hle, ← List.take_take, hu, hstart, List.take_left]
  exact hwhole

namespace Block.Stands

/-- The open marker stands in front of the end marker. -/
theorem openAt_le {t : Text} (hb : b.Stands s t) : b.opening.openAt ≤ b.ending.openAt :=
  hb.opening.openAt_le.trans hb.before.ordered

/-- What is written back with the open marker holds the marker. -/
theorem openSpan_start_le {t : Text} (hb : b.Stands s t) : b.openSpan.start ≤ b.opening.openAt := by
  rw [openSpan_start_eq hb.formed hb.before.ordered]
  split
  · exact le_rfl
  · exact Nat.sub_le ..

/-- A block in front of the lines is made up of its markers inside of what stands in front. -/
theorem windowed_front (new : Text) (hb : b.Stands s (front ++ old ++ back))
    (hfront : front.getLast? = some newline) (hend : b.ending.closeEnd < front.length) :
    Block.Windowed [] front (old ++ back) (new ++ back) b.opening b.ending b.isInline := by
  have howidth := hb.opening.width
  have hewidth := hb.ending.width
  have hoLead := Marker.Stands.lead_le (x := []) hb.opening (.inl rfl) (Nat.zero_le _)
  have heLead := Marker.Stands.lead_le (x := []) hb.ending (.inl rfl) (Nat.zero_le _)
  have htext : [] ++ front ++ (old ++ back) = front ++ old ++ back := by simp
  refine ⟨hb.before.ordered, hoLead, by omega, heLead, by omega, by simpa using hend.le, fun hlines => ?_,
    fun _ => .inl ?_⟩
  · rw [htext]
    exact hb.before.newline (.inl hlines)
  · obtain ⟨line, rfl⟩ := List.getLast?_eq_some_iff.1 hfront
    rw [List.length_append, List.length_singleton] at hend
    have hline := Text.extract_append line [newline] (old ++ back)
    refine Text.mem_extract_mono (Nat.le_of_lt_succ hend) le_rfl ?_
    rw [List.nil_append, List.length_append, hline]
    exact List.mem_singleton_self newline

/-- A block behind the lines is made up of its markers inside of what stands behind. -/
theorem windowed_back (hb : b.Stands s (front ++ old ++ back)) (hlines : (front ++ old).Whole)
    (hopen : (front ++ old).length ≤ b.opening.openAt) :
    Block.Windowed (front ++ old) back [] [] b.opening b.ending b.isInline := by
  have howidth := hb.opening.width
  have hewidth := hb.ending.width
  have hordered := hb.before.ordered
  have hoLead := hb.opening.lead_le hlines hopen
  have heLead := hb.ending.lead_le hlines (hopen.trans hb.openAt_le)
  refine ⟨hordered, hoLead, by omega, heLead, by omega, hb.ending.bound, fun hlines => ?_,
    fun _ => .inr ⟨rfl, rfl⟩⟩
  rw [List.append_nil]
  exact hb.before.newline (.inl hlines)

end Block.Stands

namespace Block

/-- **A block in front of the lines stays as it is.** -/
theorem remade_of_front (hb : b.Stands s (front ++ old ++ back)) (hfront : front.getLast? = some newline)
    (ho : b.opening.Outside front old back) (he : b.ending.Outside front old back)
    (hend : b.ending.closeEnd < front.length) :
    b.remade (front ++ new ++ back) (Marker.moved front old new) = b := by
  have hopen : b.opening.closeEnd < front.length := by
    have hordered : b.opening.closeEnd ≤ b.ending.openAt := hb.before.ordered
    have hwidth := he.width
    omega
  have h := ofMarkers_shifted [] b.depth (hb.windowed_front new hfront hend)
  rw [remade, Marker.moved_of_lt new ho hopen, Marker.moved_of_lt new he hend]
  simp only [List.nil_append, List.length_nil, Marker.shifted_zero, shifted_zero] at h
  rw [List.append_assoc, h, ← List.append_assoc, ← hb.formed]

/-- **A block behind the lines is shifted.** -/
theorem remade_of_back (hb : b.Stands s (front ++ old ++ back)) (hlines : (front ++ old).Whole)
    (hopen : (front ++ old).length ≤ b.opening.openAt) :
    b.remade (front ++ new ++ back) (Marker.moved front old new)
      = b.shifted (front ++ old).length (front ++ new).length := by
  have hend := hopen.trans hb.openAt_le
  have h := ofMarkers_shifted (front ++ new) b.depth (hb.windowed_back hlines hopen)
  rw [remade, Marker.moved_of_le new hopen, Marker.moved_of_le new hend]
  simp only [List.append_nil] at h
  rw [h, ← hb.formed]

end Block

/-! ## A block around whole lines -/

/-- **A block of whole lines around some lines of a text**, which are those between the lines of its markers. -/
structure Block.Around (s : Settings) (front old back : Text) (b : Block) : Prop where
  /-- The block stands in the text. -/
  stands : b.Stands s (front ++ old ++ back)
  /-- It takes whole lines. -/
  lines : b.isInline = false
  /-- A line ends in front of those between its markers. -/
  before : front.getLast? = some newline
  /-- The lines between its markers. -/
  between : Whole old
  /-- The line of the open marker is the last one in front of them. -/
  opening : newline ∈ (front ++ old ++ back).extract b.opening.closeEnd front.length
  /-- The open marker is written back with its lines. -/
  openStop : b.openSpan.stop = front.length
  /-- So is the end marker. -/
  endStart : b.endSpan.start = (front ++ old).length

namespace Block.Around

/-- The lines up to that of the end marker. -/
theorem whole (h : g.Around s front old back) : Whole (front ++ old) :=
  Text.Whole.append (.inr h.before) h.between

/-- The open marker ends in front of the end of its line. -/
theorem closeEnd_lt (h : g.Around s front old back) : g.opening.closeEnd < front.length := by
  by_contra hle
  have hempty := h.opening
  rw [List.extract_eq_take_drop, Nat.sub_eq_zero_of_le (Nat.le_of_not_lt hle)] at hempty
  cases hempty

/-- The line of the end marker starts behind the lines. -/
theorem lineStart_eq (h : g.Around s front old back) : g.ending.lineStart = (front ++ old).length := by
  rw [← h.endStart, (h.stands.spans_eq h.lines).2]

/-- The end marker stands behind the lines. -/
theorem le_openAt (h : g.Around s front old back) : (front ++ old).length ≤ g.ending.openAt :=
  h.lineStart_eq ▸ Nat.sub_le ..

/-- What stands behind the open marker stands behind its line. -/
theorem le_of_before (h : g.Around s front old back) {m : Mark} (hm : m.marker.Stands s (front ++ old ++ back))
    (hbefore : Mark.Before (front ++ old ++ back) (.opening g) m) : front.length ≤ m.marker.openAt := by
  have hstop := hm.lineStop_le (hbefore.newline (.inl h.lines))
  rw [show Text.lineStop _ (Mark.opening g).marker.closeEnd = front.length by
    rw [← h.openStop, (h.stands.spans_eq h.lines).1, Mark.marker]] at hstop
  exact hstop.trans (Nat.sub_le ..)

/-- What stands before the end marker stands in front of its line. -/
theorem le_of_before_ending (h : g.Around s front old back) {m : Mark}
    (hm : m.marker.Stands s (front ++ old ++ back))
    (hbefore : Mark.Before (front ++ old ++ back) m (.ending g)) :
    m.marker.closeEnd ≤ (front ++ old).length := by
  have hstop := h.stands.ending.lineStop_le (hbefore.newline (.inr h.lines))
  rw [h.lineStart_eq] at hstop
  exact (Text.lineStop_bounds _ hm.bound).1.trans hstop

end Block.Around

/-- **No marker reaches into the lines** if no opener is written there. -/
theorem Block.Around.outside (h : g.Around s front old back) (hplain : ∀ f, ¬ (s.tokens f).opener <:+: old)
    {d : Document} (hd : Document.parse s (front ++ old ++ back) = .ok d) (hg : g ∈ d.blocks) :
    ∀ m ∈ d.marks, m.marker.Outside front old back := by
  have husable := Document.usable_of_parse hd
  obtain ⟨hopening, hending⟩ := Document.marks_of_mem_blocks hd hg
  intro m hm
  have hmstands := (Document.pairwise_before hd).2 m hm
  have hwidth := hmstands.width
  have hlt := h.closeEnd_lt
  have hle := h.le_openAt
  refine ⟨hmstands.openAt_lt husable, ?_, hmstands.bound⟩
  have howidth := h.stands.opening.width
  have hewidth := h.stands.ending.width
  rcases Document.before_or_before hd hm hopening with rfl | hfront | hbehind
  · exact .inl hlt
  · have hordered : m.marker.closeEnd ≤ g.opening.openAt := hfront.ordered
    exact .inl (by omega)
  rcases Document.before_or_before hd hm hending with rfl | hfront | hbehind'
  · exact .inr hle
  · -- an opener would be written in the lines
    have hstart := h.le_of_before hmstands hbehind
    have hstop := h.le_of_before_ending hmstands hfront
    have hwritten := Document.extract_opener hd hm
    rw [Text.extract_append_append back hstart (by omega), List.extract_eq_take_drop] at hwritten
    refine absurd ?_ (hplain m.marker.family)
    rw [← hwritten]
    exact (List.take_prefix ..).isInfix.trans (List.drop_suffix ..).isInfix
  · have hordered : g.ending.closeEnd ≤ m.marker.openAt := hbehind'.ordered
    exact .inr (by omega)

/-! ## Twin blocks -/

/-- **A block that lies between two offsets** with its spans, which are in order. -/
structure Block.Within (i j : Nat) (b : Block) : Prop where
  /-- It starts behind the first offset. -/
  start : i ≤ b.openSpan.start
  /-- What is written back with the open marker. -/
  opening : b.openSpan.start ≤ b.openSpan.stop
  /-- The body. -/
  body : b.openSpan.stop ≤ b.endSpan.start
  /-- What is written back with the end marker. -/
  ending : b.endSpan.start ≤ b.endSpan.stop
  /-- It stops in front of the second offset. -/
  stop : b.endSpan.stop ≤ j

/-- **An outermost block has the others in front of it and behind it.** -/
theorem Document.exists_within {t : Text} {d : Document} (hd : parse s t = .ok d) (hg : g ∈ d.outermost) :
    ∃ front back, d.outermost = front ++ g :: back ∧ g.Within 0 t.length ∧
      (∀ b ∈ front, b ∈ d.blocks ∧ b.Within 0 g.openSpan.start) ∧
      ∀ b ∈ back, b ∈ d.blocks ∧ b.Within g.endSpan.stop t.length := by
  obtain ⟨hspans, hpairwise⟩ := spans_ordered hd 1
  obtain ⟨front, back, hsplit⟩ := List.append_of_mem hg
  rw [show d.blocks.filter (·.depth = 1) = front ++ g :: back from hsplit] at hspans hpairwise
  obtain ⟨-, hbehind, hfront⟩ := List.pairwise_append.1 hpairwise
  obtain ⟨hback, -⟩ := List.pairwise_cons.1 hbehind
  have hmem : ∀ b ∈ front ++ g :: back, b ∈ d.blocks := fun b hb => (List.mem_filter.1 (hsplit ▸ hb)).1
  have hwithin : ∀ b ∈ front ++ g :: back, b.Within 0 t.length := fun b hb => by
    obtain ⟨hopening, hbody, hending, hstop⟩ := hspans b hb
    exact ⟨Nat.zero_le _, hopening, hbody, hending, hstop⟩
  refine ⟨front, back, hsplit, hwithin g (by simp), fun b hb => ?_, fun b hb => ?_⟩
  · exact ⟨hmem b (by simp [hb]), { hwithin b (by simp [hb]) with stop := hfront b hb g (by simp) }⟩
  · exact ⟨hmem b (by simp [hb]), { hwithin b (by simp [hb]) with start := hback b hb }⟩

/-- **Blocks in a stretch that two texts have in common** are twins of themselves in the other text, if those
behind them are twins. -/
theorem Run.Twins.shifted {x y z z' : Text} (x' : Text) {bs rest rest' : List Block}
    (hbs : ∀ b ∈ bs, b.Within x.length (x ++ y).length)
    (hrest : ∀ i, x.length ≤ i → i ≤ (x ++ y).length →
      Twins (x ++ y ++ z) (x' ++ y ++ z') i (shift x.length x'.length i) rest rest')
    {i : Nat} (hi : x.length ≤ i) (hi' : i ≤ (x ++ y).length) :
    Twins (x ++ y ++ z) (x' ++ y ++ z') i (shift x.length x'.length i) (bs ++ rest)
      (bs.map (Block.shifted x.length x'.length) ++ rest') := by
  induction bs generalizing i with
  | nil => exact hrest i hi hi'
  | cons b bs ih =>
    obtain ⟨⟨hstart, hopening, hbody, hending, hstop⟩, hbs⟩ := List.forall_mem_cons.1 hbs
    refine .cons ?_ ⟨⟨rfl, rfl, rfl⟩, rfl, rfl, ?_, ?_⟩ (ih hbs (by omega) hstop)
    · exact Text.extract_shift x' z z' hi (by omega)
    · exact Span.of_shifted x' z z' hstart (by omega)
    · exact Span.of_shifted x' z z' (by omega) hstop

namespace Block.Around

/-- The markers of the block are remade with it. -/
theorem remade_eq (h : g.Around s front old back) (new t : Text) (ho : g.opening.Outside front old back) :
    g.remade t (Marker.moved front old new)
      = linesOf t g.opening (g.ending.shifted (front ++ old).length (front ++ new).length) g.depth := by
  rw [remade, Marker.moved_of_lt new ho h.closeEnd_lt, Marker.moved_of_le new h.le_openAt, h.lines]
  rfl

/-- The open marker is written back as before. -/
theorem openSpan_remade (h : g.Around s front old back) (new : Text) (ho : g.opening.Outside front old back) :
    (g.remade (front ++ new ++ back) (Marker.moved front old new)).openSpan = g.openSpan := by
  rw [h.remade_eq new _ ho, (h.stands.spans_eq h.lines).1, linesOf]
  have hstop := @Text.lineStop_shift [] front g.opening.closeEnd (old ++ back) (new ++ back) []
    (Nat.zero_le _) h.closeEnd_lt.le (.inl (by simpa using h.opening))
  simpa using hstop

/-- The end marker is written back from another offset. -/
theorem endSpan_remade (h : g.Around s front old back) (new : Text) (ho : g.opening.Outside front old back) :
    (g.remade (front ++ new ++ back) (Marker.moved front old new)).endSpan
      = g.endSpan.shifted (front ++ old).length (front ++ new).length := by
  have hle : (front ++ old).length ≤ g.ending.closeEnd := by
    have hopenAt := h.le_openAt
    have hwidth := h.stands.ending.width
    omega
  have hstop := @Text.lineStop_shift (front ++ old) back g.ending.closeEnd [] [] (front ++ new) hle
    h.stands.ending.bound (.inr ⟨rfl, rfl⟩)
  have hstart := Text.shift_sub (front ++ new).length (h.stands.ending.lead_le h.whole h.le_openAt)
  rw [List.append_nil, List.append_nil] at hstop
  rw [h.remade_eq new _ ho, (h.stands.spans_eq h.lines).2]
  exact congrArg₂ Span.mk hstart.symm hstop

/-- **The block around the exchanged lines is a twin of the remade one.** Its body is another, but that is not
written back. -/
theorem twin (h : g.Around s front old back) (new : Text) (ho : g.opening.Outside front old back) :
    Run.Twin (front ++ old ++ back) (front ++ new ++ back) g
      (g.remade (front ++ new ++ back) (Marker.moved front old new)) where
  opening := by
    rw [remade, ofMarkers_opening]
    exact Marker.alike_moved front old new _
  lead := by rw [remade, ofMarkers_opening, Marker.lead_moved]
  isInline := by rw [remade, ofMarkers_isInline]
  openText := by
    rw [h.openSpan_remade new ho, List.append_assoc, List.append_assoc]
    exact @Span.of_shifted [] front g.openSpan [] (old ++ back) (new ++ back) (Nat.zero_le _) h.openStop.le
  endText := by
    have hstop := (Block.spans_ordered h.stands.formed h.stands.opening h.stands.ending h.stands.before).2.2.2
    have htext := @Span.of_shifted (front ++ old) back g.endSpan (front ++ new) [] [] h.endStart.ge hstop
    rwa [List.append_nil, List.append_nil, ← h.endSpan_remade new ho] at htext

/-- A block of the text in front of the block around the lines stays as it is. -/
theorem remade_of_within (h : g.Around s front old back) (new : Text) (hb : b.Stands s (front ++ old ++ back))
    (ho : b.opening.Outside front old back) (he : b.ending.Outside front old back)
    (hwithin : b.Within 0 g.openSpan.start) :
    b.remade (front ++ new ++ back) (Marker.moved front old new) = b := by
  refine remade_of_front hb h.before ho he ?_
  have hbstop := closeEnd_le_endSpan_stop hb.formed hb.before.ordered hb.ending.bound
  have hstop := hwithin.stop
  have hstart := h.stands.openSpan_start_le
  have hwidth := h.stands.opening.width
  have hlt := h.closeEnd_lt
  omega

/-- **Texts in which the lines inside of an outermost block are exchanged** have twin blocks. -/
theorem twins (h : g.Around s front old back) (new : Text) {d : Document}
    (hd : Document.parse s (front ++ old ++ back) = .ok d) (hg : g ∈ d.outermost)
    (houtside : ∀ m ∈ d.marks, m.marker.Outside front old back) :
    Run.Twins (front ++ old ++ back) (front ++ new ++ back) 0 0 d.outermost
      (d.outermost.map (Block.remade (front ++ new ++ back) (Marker.moved front old new))) := by
  obtain ⟨infront, behind, hsplit, hgwithin, hfront, hback⟩ := Document.exists_within hd hg
  have hstands := Document.stands_of_mem_blocks hd
  have hmarkers : ∀ b ∈ d.blocks, b.opening.Outside front old back ∧ b.ending.Outside front old back :=
    fun b hb => by
      obtain ⟨hopening, hending⟩ := Document.marks_of_mem_blocks hd hb
      exact ⟨houtside _ hopening, houtside _ hending⟩
  have hinfront : infront.map (Block.remade (front ++ new ++ back) (Marker.moved front old new))
      = infront.map (Block.shifted 0 0) :=
    List.map_congr_left fun b hb => by
      obtain ⟨hb, hwithin⟩ := hfront b hb
      exact h.remade_of_within new (hstands b hb) (hmarkers b hb).1 (hmarkers b hb).2 hwithin
  have hbehind : behind.map (Block.remade (front ++ new ++ back) (Marker.moved front old new))
      = behind.map (Block.shifted (front ++ old).length (front ++ new).length) :=
    List.map_congr_left fun b hb => by
      obtain ⟨hb, hwithin⟩ := hback b hb
      refine remade_of_back (hstands b hb) h.whole ?_
      exact h.endStart ▸ (hgwithin.ending.trans hwithin.start).trans (hstands b hb).openSpan_start_le
  obtain ⟨hopening, -⟩ := hmarkers g (List.mem_filter.1 hg).1
  have htwin := h.twin new hopening
  have hopenSpan := h.openSpan_remade new hopening
  have hendSpan := h.endSpan_remade new hopening
  rw [hsplit, List.map_append, List.map_cons, hinfront, hbehind]
  generalize g.remade (front ++ new ++ back) (Marker.moved front old new) = g' at htwin hopenSpan hendSpan ⊢
  -- the blocks behind `g`, up to the end of both texts
  have hrest := @Run.Twins.shifted (front ++ old) back [] [] (front ++ new) behind [] []
    (fun b hb => { (hback b hb).2 with start := h.endStart ▸ hgwithin.ending.trans (hback b hb).2.start })
    (fun i hi _ => .nil (by simpa using Text.drop_shift (front ++ new) hi)) g.endSpan.stop
    (h.endStart ▸ hgwithin.ending) hgwithin.stop
  rw [List.append_nil, List.append_nil, List.append_nil, List.append_nil] at hrest
  -- and `g` behind the blocks in front of it
  rw [List.append_assoc, List.append_assoc] at htwin hrest ⊢
  refine Run.Twins.shifted (x := []) [] (fun b hb => ?_) (fun i _ hi => .cons ?_ htwin ?_) (Nat.zero_le _)
    (Nat.zero_le _)
  · exact { (hfront b hb).2 with
      stop := (hfront b hb).2.stop.trans (hgwithin.opening.trans h.openStop.le) }
  · rw [hopenSpan]
    exact Text.extract_shift [] (old ++ back) (new ++ back) (Nat.zero_le i)
      (hgwithin.opening.trans h.openStop.le)
  · rwa [hendSpan]

/-- **No other block reaches across the lines**: it is in front of them or behind them. -/
theorem apart (h : g.Around s front old back) {d : Document}
    (hd : Document.parse s (front ++ old ++ back) = .ok d) (hg : g ∈ d.outermost)
    (houtside : ∀ m ∈ d.marks, m.marker.Outside front old back) (hb : b ∈ d.blocks) (hne : b ≠ g) :
    b.ending.closeEnd < front.length ∨ (front ++ old).length ≤ b.opening.openAt := by
  have houter := Document.outermost_of_parse hd
  obtain ⟨hbefore, hstands⟩ := Document.pairwise_before hd
  obtain ⟨hopening, hending⟩ := Document.marks_of_mem_blocks hd hb
  have howidth := h.stands.opening.width
  have hewidth := h.stands.ending.width
  rcases houter.block_cases hbefore hg b hb with rfl | ⟨hbehind, hfront⟩ | hfront | hbehind
  · exact absurd rfl hne
  · -- the open marker would be inside of the lines
    have hb' := Document.stands_of_mem_blocks hd b hb
    have hstart : front.length ≤ b.opening.openAt := h.le_of_before (m := .opening b) hb'.opening hbehind
    have hstop : b.ending.closeEnd ≤ (front ++ old).length :=
      h.le_of_before_ending (m := .ending b) hb'.ending hfront
    have hordered : b.opening.closeEnd ≤ b.ending.openAt := hb'.before.ordered
    have hopening : b.opening.Outside front old back := houtside _ hopening
    have hwidth := hopening.width
    have hwidth' := (houtside _ hending : b.ending.Outside front old back).width
    have hout := hopening.outside
    omega
  · have hordered : b.ending.closeEnd ≤ g.opening.openAt := hfront.ordered
    have hlt := h.closeEnd_lt
    exact .inl (by omega)
  · have hordered : g.ending.closeEnd ≤ b.opening.openAt := hbehind.ordered
    have hle := h.le_openAt
    exact .inr (by omega)

/-- **The edits say the same** in both texts. -/
theorem same_edits (h : g.Around s front old back) (new : Text) {d : Document}
    (hd : Document.parse s (front ++ old ++ back) = .ok d) (hg : g ∈ d.outermost)
    (hfamily : g.family = .generation) (houtside : ∀ m ∈ d.marks, m.marker.Outside front old back)
    (t t' : Text) :
    List.Forall₂ Edits.Same ((Document.editBlocks d.marks).map ({ source := t, block := · }))
      (((Document.editBlocks d.marks).map
        (Block.remade (front ++ new ++ back) (Marker.moved front old new))).map
          ({ source := t', block := · })) := by
  rw [List.map_map, List.forall₂_map_left_iff, List.forall₂_map_right_iff, List.forall₂_same]
  intro b hb
  obtain ⟨hb, hedit⟩ := List.mem_filter.1 hb
  have hne : b ≠ g := by
    rintro rfl
    rw [hfamily] at hedit
    cases hedit
  have hb' := Document.stands_of_mem_blocks hd b hb
  obtain ⟨hopening, hending⟩ := Document.marks_of_mem_blocks hd hb
  rcases h.apart hd hg houtside hb hne with hfront | hbehind
  · rw [Function.comp_apply,
      remade_of_front hb' h.before (houtside _ hopening) (houtside _ hending) hfront]
    exact ⟨rfl, rfl, rfl⟩
  · rw [Function.comp_apply, remade_of_back hb' h.whole hbehind]
    exact ⟨rfl, rfl, rfl⟩

end Block.Around

/-! ## Exchanging the lines -/

/-- **A block of whole lines stands around the lines between its markers.** -/
theorem Block.Stands.exists_around {t : Text} (hb : b.Stands s t) (hlines : b.isInline = false) :
    ∃ front old back, t = front ++ old ++ back ∧ b.Around s front old back := by
  have hnewline : newline ∈ t.extract b.opening.closeEnd b.ending.openAt := hb.before.newline (.inl hlines)
  obtain ⟨hopenSpan, hendSpan⟩ := hb.spans_eq hlines
  have hle := hb.ending.lineStop_le hnewline
  obtain ⟨hlast, hmem⟩ := Text.lineStop_of_mem hnewline
  generalize Text.lineStop t b.opening.closeEnd = stop at *
  have hbound : b.ending.openAt ≤ t.length := hb.ending.openAt_le.trans hb.ending.bound
  have hstart : b.ending.lineStart ≤ b.ending.openAt := Nat.sub_le ..
  have hold := Text.take_append_extract t hle
  have hwhole := hb.ending.whole_take
  have hlen : (t.take stop).length = stop := by
    rw [List.length_take]
    omega
  have htext : t.take stop ++ t.extract stop b.ending.lineStart ++ t.drop b.ending.lineStart = t := by
    rw [hold, List.take_append_drop]
  refine ⟨t.take stop, t.extract stop b.ending.lineStart, t.drop b.ending.lineStart, htext.symm, ?_⟩
  rw [← hold] at hwhole
  have hlen' : (t.take stop ++ t.extract stop b.ending.lineStart).length = b.ending.lineStart := by
    rw [hold, List.length_take]
    omega
  exact { stands := by rwa [htext], lines := hlines, before := hlast, between := hwhole.of_append_right
          opening := by rwa [htext, hlen], openStop := by rw [hopenSpan, hlen]
          endStart := by rw [hendSpan, hlen'] }

namespace Document

/-- **Generated text has no influence on what is generated.** Take an outermost generation block of whole lines
with no opener in the lines between its markers, and exchange these for any other whole lines without an
opener. The text is read again then, if no opener of the settings holds a line feed. And whatever the renderer,
the context, the edits from outside and the choice about markers are, in directive mode there is the same
output, or in either case an error, and both are of one kind. -/
theorem generate_of_stale {t : Text} {d : Document} (hopener : ∀ f, newline ∉ (s.tokens f).opener)
    (hd : parse s t = .ok d) (hg : g ∈ d.outermost) (hfamily : g.family = .generation)
    (hlines : g.isInline = false)
    (hregion : ∀ f, ¬ (s.tokens f).opener <:+: t.extract g.openSpan.stop g.endSpan.start)
    {text : Text} (htext : Whole text) (hplain : ∀ f, ¬ (s.tokens f).opener <:+: text) :
    ∃ d', parse s (t.patch 0 [(⟨g.openSpan.stop, g.endSpan.start⟩, text)]) = .ok d' ∧
      ∀ (renderer : Renderer) (context : Context) (removeMarkers : Bool) (supplied : Supplied),
        (∃ o, generate renderer context s .directive removeMarkers d supplied = .ok o ∧
          generate renderer context s .directive removeMarkers d' supplied = .ok o) ∨
        ∃ e e', generate renderer context s .directive removeMarkers d supplied = .error e ∧
          generate renderer context s .directive removeMarkers d' supplied = .error e' ∧
          e'.cause.code = e.cause.code := by
  have hgblock := (List.mem_filter.1 hg).1
  obtain ⟨front, old, back, rfl, h⟩ := (stands_of_mem_blocks hd g hgblock).exists_around hlines
  have hregion' : (front ++ old ++ back).extract g.openSpan.stop g.endSpan.start = old := by
    rw [h.openStop, h.endStart, List.length_append, Text.extract_append]
  have hpatch : (front ++ old ++ back).patch 0 [(⟨g.openSpan.stop, g.endSpan.start⟩, text)]
      = front ++ text ++ back := by
    rw [Text.patch, Text.patch, h.openStop, h.endStart, List.drop_left, List.append_assoc front,
      show (front ++ (old ++ back)).extract 0 front.length = front by simp [List.extract_eq_take_drop]]
  rw [hregion'] at hregion
  have houtside := h.outside hregion hd hgblock
  obtain ⟨d', hd', hmarks⟩ := exists_exchanged hopener h.before h.between htext hregion hplain hd houtside
  refine ⟨d', hpatch ▸ hd', fun renderer context removeMarkers supplied => ?_⟩
  obtain ⟨-, -, -, -, hsource, hedits⟩ := parse_eq_ok_iff.1 hd
  obtain ⟨-, -, -, -, hsource', hedits'⟩ := parse_eq_ok_iff.1 hd'
  have htwins := h.twins text hd hg houtside
  have houtermost : d'.outermost
      = d.outermost.map (Block.remade (front ++ text ++ back) (Marker.moved front old text)) := by
    show Mark.outermost d'.marks = (Mark.outermost d.marks).map _
    rw [hmarks, Mark.outermost_map fun b => by rw [Block.remade, Block.ofMarkers_depth]]
  have hsame := h.same_edits text hd hg hfamily houtside (front ++ old ++ back) (front ++ text ++ back)
  rw [← hedits, ← editBlocks_map (Block.family_remade (Marker.alike_moved _ _ _)), ← hmarks, ← hedits'] at hsame
  rw [← houtermost, ← hsource, ← hsource'] at htwins
  exact (generate_alike supplied htwins hsame).ok_or_error

/-- A generation block with a line in it, and an edit behind the block. -/
def staleText : Text := "[[[ a ]]]\nold\n[[[ end ]]]\n<<[ b ]>>\nkept\n<<[ end ]>>\n"

/-- The document of that text. -/
def stale : Document := ((parse .standard staleText).toOption).getD { source := [], marks := [], edits := [] }

/-- Other lines in the block make no difference to what is generated. -/
theorem generate_of_stale_lines :
    let o : Text := "[[[ a ]]]\nnew\n[[[ end ]]]\n<<[ b ]>>\nkept\n<<[ end ]>>\n"
    generate (fun _ _ => .ok "new") [] .standard .directive false stale {} = .ok o ∧
      ∃ g ∈ stale.outermost, g.family = .generation ∧ g.isInline = false ∧ Whole "even\nolder\n" ∧
        (∀ f, ¬ (Settings.standard.tokens f).opener <:+: staleText.extract g.openSpan.stop g.endSpan.start) ∧
        (∀ f, ¬ (Settings.standard.tokens f).opener <:+: Text.ofString "even\nolder\n") ∧
        ∃ d', parse .standard (staleText.patch 0 [(⟨g.openSpan.stop, g.endSpan.start⟩, "even\nolder\n")])
            = .ok d' ∧ generate (fun _ _ => .ok "new") [] .standard .directive false d' {} = .ok o := by
  intro o
  have hd : parse .standard staleText = .ok stale := by rfl
  have ho : generate (fun _ _ => .ok "new") [] .standard .directive false stale {} = .ok o := by
    decide +kernel
  let g : Block := stale.outermost.head (by decide +kernel)
  have hg : g ∈ stale.outermost := List.head_mem _
  have hfamily : g.family = .generation := by decide +kernel
  have hlines : g.isInline = false := by decide +kernel
  have hregion : ∀ f, ¬ (Settings.standard.tokens f).opener <:+:
      staleText.extract g.openSpan.stop g.endSpan.start := fun f => by
    cases f <;> decide +kernel
  have hwhole : Whole "even\nolder\n" := .inr (by decide)
  have hplain : ∀ f, ¬ (Settings.standard.tokens f).opener <:+: Text.ofString "even\nolder\n" := fun f => by
    cases f <;> decide +kernel
  have hopener : ∀ f, newline ∉ (Settings.standard.tokens f).opener := fun f => by cases f <;> decide
  obtain ⟨d', hd', halike⟩ := generate_of_stale hopener hd hg hfamily hlines hregion hwhole hplain
  refine ⟨ho, g, hg, hfamily, hlines, hwhole, hregion, hplain, d', hd', ?_⟩
  rcases halike (fun _ _ => .ok "new") [] false {} with ⟨o', ho', hsame⟩ | ⟨e, -, he, -⟩
  · exact hsame.trans (ho'.symm.trans ho)
  · exact absurd (ho.symm.trans he) nofun

end Document

end

end Regen
