import Regen.Proofs.Nesting

/-!
# Texts with a stretch in common

Two texts may have a stretch in common, with different bytes in front of it and behind it. What is looked up
inside of the stretch is the same in both, but for the offsets, which are shifted by what stands in front
(`Text.shift`). So two markers inside of the stretch make up the same block in both texts
(`Block.ofMarkers_shifted`).

A block reaches a little further than its markers: to the start of the line of each, and to the end of that
line. The former is in the stretch because the lead of the marker is. The latter is taken care of by asking
that a line ends in the stretch behind the marker, or that the stretch is the end of both texts.
-/

namespace Regen

namespace Text

/-- Where an offset comes to lie when `n'` bytes come in the place of the first `n` ones. -/
def shift (n n' i : Nat) : Nat := i - n + n'

/-- Nothing is shifted if as many bytes come in the place of none. -/
@[simp] theorem shift_zero (i : Nat) : shift 0 0 i = i := rfl

/-- What is further back comes to lie further back. -/
theorem shift_add {n i k : Nat} (n' : Nat) (hi : n ≤ i) : shift n n' (i + k) = shift n n' i + k := by
  unfold shift
  omega

/-- What is further in front comes to lie further in front. -/
theorem shift_sub {n i k : Nat} (n' : Nat) (hi : n + k ≤ i) : shift n n' (i - k) = shift n n' i - k := by
  unfold shift
  omega

variable {x y : Text} {i j : Nat}

/-- A stretch inside of a part of a text. -/
theorem extract_append_append (z : Text) (hi : x.length ≤ i) (hj : j ≤ (x ++ y).length) :
    (x ++ y ++ z).extract i j = y.extract (i - x.length) (j - x.length) := by
  rw [List.length_append] at hj
  obtain ⟨k, rfl⟩ := Nat.exists_eq_add_of_le hi
  rw [List.extract_eq_take_drop, List.extract_eq_take_drop, List.append_assoc, ← List.drop_drop,
    List.drop_left, Nat.add_sub_cancel_left, show j - (x.length + k) = j - x.length - k by omega]
  by_cases hk : k ≤ y.length
  · rw [List.drop_append_of_le_length hk, List.take_append_of_le_length]
    rw [List.length_drop]
    omega
  · rw [show j - x.length - k = 0 by omega, List.take_zero, List.take_zero]

/-- **A stretch inside of what is common to both texts** is the same in both. -/
theorem extract_shift (x' z z' : Text) (hi : x.length ≤ i) (hj : j ≤ (x ++ y).length) :
    (x' ++ y ++ z').extract (shift x.length x'.length i) (shift x.length x'.length j)
      = (x ++ y ++ z).extract i j := by
  rw [List.length_append] at hj
  by_cases hij : i < j
  · rw [extract_append_append z hi (by simpa using hj), extract_append_append z' (by simp [shift])
      (by simp only [shift, List.length_append]; omega), shift, shift, Nat.add_sub_cancel,
      Nat.add_sub_cancel]
  · have hempty : ∀ (t : Text) {i j : Nat}, ¬ i < j → t.extract i j = [] := fun t i j h => by
      rw [List.extract_eq_take_drop, Nat.sub_eq_zero_of_le (Nat.le_of_not_lt h), List.take_zero]
    rw [hempty _ hij, hempty]
    simp only [shift]
    omega

/-- What follows in both texts is the same from any place in it on. -/
theorem drop_shift (x' : Text) (hi : x.length ≤ i) :
    (x' ++ y).drop (shift x.length x'.length i) = (x ++ y).drop i := by
  obtain ⟨k, rfl⟩ := Nat.exists_eq_add_of_le hi
  rw [shift, Nat.add_sub_cancel_left, Nat.add_comm k, ← List.drop_drop, ← List.drop_drop, List.drop_left,
    List.drop_left]

/-- The first place of a byte in the stretch is the same. -/
theorem byteIn?_shift (b : UInt8) (x' z z' : Text) (hi : x.length ≤ i) (hj : j ≤ (x ++ y).length) :
    byteIn? b (x' ++ y ++ z') (shift x.length x'.length i) (shift x.length x'.length j)
      = (byteIn? b (x ++ y ++ z) i j).map (shift x.length x'.length) := by
  rw [byteIn?, byteIn?, extract_shift x' z z' hi hj, Option.map_map]
  refine congrArg (Option.map · _) (funext fun k => ?_)
  simp only [shift, Function.comp_apply]
  omega

/-- And so is the last one. -/
theorem lastByteIn?_shift (b : UInt8) (x' z z' : Text) (hi : x.length ≤ i) (hj : j ≤ (x ++ y).length) :
    lastByteIn? b (x' ++ y ++ z') (shift x.length x'.length i) (shift x.length x'.length j)
      = (lastByteIn? b (x ++ y ++ z) i j).map (shift x.length x'.length) := by
  rw [lastByteIn?, lastByteIn?, extract_shift x' z z' hi hj, Option.map_map]
  refine congrArg (Option.map · _) (funext fun k => ?_)
  simp only [shift, Function.comp_apply]
  omega

/-- **A line that ends in the common stretch**, or with both texts, ends at the same place. -/
theorem lineStop_shift {z z' : Text} (x' : Text) (hi : x.length ≤ i) (hiy : i ≤ (x ++ y).length)
    (hstop : newline ∈ (x ++ y ++ z).extract i (x ++ y).length ∨ z = [] ∧ z' = []) :
    lineStop (x' ++ y ++ z') (shift x.length x'.length i)
      = shift x.length x'.length (lineStop (x ++ y ++ z) i) := by
  obtain ⟨p, q, rfl, rfl⟩ : ∃ p q, y = p ++ q ∧ i = (x ++ p).length := by
    rw [List.length_append] at hiy
    refine ⟨y.take (i - x.length), y.drop (i - x.length), (List.take_append_drop ..).symm, ?_⟩
    rw [List.length_append, List.length_take]
    omega
  have hshift : shift x.length x'.length (x ++ p).length = (x' ++ p).length := by
    simp only [shift, List.length_append]
    omega
  rcases notMem_or_eq_newline q with hq | ⟨u, v, rfl, hu⟩
  · obtain hmem | ⟨rfl, rfl⟩ := hstop
    · rw [show x ++ (p ++ q) ++ z = x ++ p ++ q ++ z by simp,
        show (x ++ (p ++ q)).length = (x ++ p).length + q.length by simp; omega, extract_append] at hmem
      exact absurd hmem hq
    · rw [hshift, List.append_nil, List.append_nil, ← List.append_assoc, ← List.append_assoc,
        lineStop_append_of_notMem _ hq, lineStop_append_of_notMem _ hq]
      simp only [shift, List.length_append]
      omega
  · rw [hshift, show x' ++ (p ++ (u ++ newline :: v)) ++ z' = x' ++ p ++ u ++ newline :: (v ++ z') by simp,
      show x ++ (p ++ (u ++ newline :: v)) ++ z = x ++ p ++ u ++ newline :: (v ++ z) by simp,
      lineStop_append_newline _ _ hu, lineStop_append_newline _ _ hu]
    simp only [shift, List.length_append]
    omega

end Text

open Text (shift newline)

/-- A marker in a text in which other bytes stand in front. -/
def Marker.shifted (n n' : Nat) (m : Marker) : Marker :=
  { m with openAt := shift n n' m.openAt, closeEnd := shift n n' m.closeEnd }

/-- A span in such a text. -/
def Span.shifted (n n' : Nat) (span : Span) : Span := ⟨shift n n' span.start, shift n n' span.stop⟩

/-- A block in such a text. -/
def Block.shifted (n n' : Nat) (b : Block) : Block :=
  { b with
    opening := b.opening.shifted n n'
    ending := b.ending.shifted n n'
    openSpan := b.openSpan.shifted n n'
    endSpan := b.endSpan.shifted n n'
    bodySpan := b.bodySpan.shifted n n' }

@[simp] theorem Marker.shifted_zero (m : Marker) : m.shifted 0 0 = m := rfl

@[simp] theorem Block.shifted_zero (b : Block) : b.shifted 0 0 = b := rfl

variable {x y : Text}

/-- The bytes of a span in the common stretch. -/
theorem Span.of_shifted {span : Span} (x' z z' : Text) (hstart : x.length ≤ span.start)
    (hstop : span.stop ≤ (x ++ y).length) :
    (span.shifted x.length x'.length).of (x' ++ y ++ z') = span.of (x ++ y ++ z) :=
  Text.extract_shift x' z z' hstart hstop

/-- Whether two markers in the common stretch are on one line. -/
theorem Pairing.onSameLine_shifted {p m : Marker} (x' z z' : Text) (hp : x.length ≤ p.closeEnd)
    (hm : m.openAt ≤ (x ++ y).length) :
    onSameLine (x' ++ y ++ z') (p.shifted x.length x'.length) (m.shifted x.length x'.length)
      = onSameLine (x ++ y ++ z) p m := by
  rw [onSameLine, onSameLine, Marker.shifted, Marker.shifted, Text.extract_shift x' z z' hp hm]

/-- Markers between which blocks are made in the common stretch. -/
structure Block.Windowed (x y z z' : Text) (opening ending : Marker) (isInline : Bool) : Prop where
  /-- The markers are in order. -/
  ordered : opening.closeEnd ≤ ending.openAt
  /-- The open marker is in the stretch with its lead. -/
  lead : x.length + opening.lead.length ≤ opening.openAt
  /-- It does not end in front of where it begins. -/
  width : opening.openAt ≤ opening.closeEnd
  /-- The end marker is in the stretch with its lead. -/
  endLead : x.length + ending.lead.length ≤ ending.openAt
  /-- Nor does the end marker. -/
  endWidth : ending.openAt ≤ ending.closeEnd
  /-- It ends in the stretch. -/
  bound : ending.closeEnd ≤ (x ++ y).length
  /-- A block of whole lines begins and ends on different lines. -/
  newline : isInline = false → Text.newline ∈ (x ++ y ++ z).extract opening.closeEnd ending.openAt
  /-- The line of its end marker ends in the stretch, or both texts end with the stretch. -/
  stop : isInline = false →
    Text.newline ∈ (x ++ y ++ z).extract ending.closeEnd (x ++ y).length ∨ z = [] ∧ z' = []

namespace Block

variable {z z' : Text} {opening ending : Marker}

/-- Markers in the common stretch make up the same inline block in both texts. -/
theorem inlineOf_shifted (x' : Text) (depth : Nat) (h : Windowed x y z z' opening ending true) :
    inlineOf (x' ++ y ++ z') (opening.shifted x.length x'.length) (ending.shifted x.length x'.length) depth
      = (inlineOf (x ++ y ++ z) opening ending depth).shifted x.length x'.length := by
  obtain ⟨hordered, hlead, hwidth, -, hendWidth, hbound, -, -⟩ := h
  have hopening : x.length ≤ opening.closeEnd := by omega
  have hending : ending.openAt ≤ (x ++ y).length := by omega
  have hfirst := Text.byteIn?_shift Text.space x' z z' hopening hending
  unfold inlineOf
  dsimp only [Marker.shifted] at hfirst ⊢
  rw [hfirst]
  cases hb : Text.byteIn? Text.space (x ++ y ++ z) opening.closeEnd ending.openAt with
  | none =>
    simp only [Option.map_none, Text.extract_shift x' z z' hopening hending]
    rfl
  | some first =>
    obtain ⟨hle, hlt⟩ := Text.byteIn?_bounds hb
    have hlast := Text.lastByteIn?_shift Text.space x' z z' (hopening.trans hle) hending
    simp only [Option.map_some, hlast, ← Text.shift_add _ (hopening.trans hle)]
    cases hb' : Text.lastByteIn? Text.space (x ++ y ++ z) first ending.openAt with
    | none =>
      simp only [Option.map_none, Text.extract_shift x' z z' (show x.length ≤ first + 1 by omega) hending]
      rfl
    | some last =>
      obtain ⟨hle', hlt'⟩ := Text.lastByteIn?_bounds hb'
      simp only [Option.map_some, ← Text.shift_add _ (show x.length ≤ last by omega),
        Text.extract_shift x' z z' (show x.length ≤ first + 1 by omega)
          (show last ≤ (x ++ y).length by omega)]
      rfl

/-- Markers in the common stretch make up the same block of whole lines in both texts. -/
theorem linesOf_shifted (x' : Text) (depth : Nat) (h : Windowed x y z z' opening ending false) :
    linesOf (x' ++ y ++ z') (opening.shifted x.length x'.length) (ending.shifted x.length x'.length) depth
      = (linesOf (x ++ y ++ z) opening ending depth).shifted x.length x'.length := by
  obtain ⟨hordered, hlead, hwidth, hendLead, hendWidth, hbound, hnewline, hstop⟩ := h
  have hopening : x.length ≤ opening.closeEnd := by omega
  have hending : ending.openAt ≤ (x ++ y).length := by omega
  have hlast := Text.lastByteIn?_shift Text.newline x' z z' hopening hending
  have hbody : Text.lineStop (x' ++ y ++ z') (shift x.length x'.length opening.closeEnd)
      = shift x.length x'.length (Text.lineStop (x ++ y ++ z) opening.closeEnd) :=
    Text.lineStop_shift x' hopening (by omega)
      (.inl (Text.mem_extract_mono le_rfl hending (hnewline rfl)))
  have hstop := Text.lineStop_shift x' (show x.length ≤ ending.closeEnd by omega) hbound (hstop rfl)
  unfold linesOf
  dsimp only [Marker.shifted] at hlast ⊢
  rw [hlast, hbody, hstop]
  cases hb : Text.lastByteIn? Text.newline (x ++ y ++ z) opening.closeEnd ending.openAt with
  | none => exact absurd (hnewline rfl) (Text.lastIdxOf?_eq_none.1 (Option.map_eq_none_iff.1 hb))
  | some last =>
    obtain ⟨hle, hlt⟩ := Text.lastByteIn?_bounds hb
    have hstart := (Text.lineStop_bounds (x ++ y ++ z)
      (show opening.closeEnd ≤ _ by simp at hbound ⊢; omega)).1
    generalize Text.lineStop (x ++ y ++ z) opening.closeEnd = bodyStart at hstart ⊢
    have hlast := Text.shift_add (k := 1) x'.length (show x.length ≤ last by omega)
    have hif : shift x.length x'.length bodyStart < shift x.length x'.length (last + 1) ↔
        bodyStart < last + 1 := by
      unfold shift
      omega
    have hextract : (x' ++ y ++ z').extract (shift x.length x'.length bodyStart)
          (shift x.length x'.length (last + 1) - 1)
        = (x ++ y ++ z).extract bodyStart (last + 1 - 1) := by
      rw [hlast, Nat.add_sub_cancel, Nat.add_sub_cancel]
      exact Text.extract_shift x' z z' (hopening.trans hstart) (by omega)
    simp only [Option.map_some, ← hlast, hif, hextract, Marker.lineStart, ← Text.shift_sub _ hlead,
      ← Text.shift_sub _ hendLead]
    rfl

/-- **Markers in the common stretch make up the same block in both texts.** -/
theorem ofMarkers_shifted {isInline : Bool} (x' : Text) (depth : Nat)
    (h : Windowed x y z z' opening ending isInline) :
    ofMarkers (x' ++ y ++ z') (opening.shifted x.length x'.length) (ending.shifted x.length x'.length)
        depth isInline
      = (ofMarkers (x ++ y ++ z) opening ending depth isInline).shifted x.length x'.length := by
  cases isInline with
  | true => exact inlineOf_shifted x' depth h
  | false => exact linesOf_shifted x' depth h

end Block

end Regen
