import Regen.Proofs.Refilling

/-!
# What fits between two markers

A region is written between the markers of a block, and the text that results is to be read again. So
the markers in the region have to be arranged as the rules demand inside that block, wherever the block
comes to stand (`Fits`). A region without markers fits always (`Fits.ofText`). What another text
was generated to fits if its outermost blocks do: all on one line in an inline block, each on
lines of its own in a block of whole lines, and no edit directly inside an edit
(`Fits.refilled`).
-/

namespace Regen

open Lexeme (ofText textOf text read? markersFrom Lexed hung)
open Text (space newline)
open Pairing (onSameLine clashes)

/-- **A slot of a text** for the region of a block: it lies between two markers of the families that
the block has, with a front and a back as it has them. -/
structure Slot (o start front region back : Text) (b : Block) (p m : Marker) : Prop where
  /-- The region stands in the text. -/
  text : ∃ after, o = start ++ (front ++ region ++ back) ++ after
  /-- The open marker ends in front of it. -/
  opening : p.closeEnd = start.length
  /-- The end marker starts behind it. -/
  ending : m.openAt = (start ++ (front ++ region ++ back)).length
  /-- The second marker is an end marker. -/
  ends : m.isEnd = true
  /-- The open marker is of the family of the block. -/
  family : p.family = b.opening.family
  /-- The end marker is of the family of the end marker of the block. -/
  endFamily : m.family = b.ending.family
  /-- An inline block is on one line around the region. -/
  inline : b.isInline = true → newline ∉ front ++ back
  /-- The region of a block of whole lines starts on a line of its own. -/
  lines : b.isInline = false → ∃ line, front = line ++ [newline]

/-- **A region fits into a block** if its markers are well arranged in every slot of that block. `names`
are those of the edits in the region. -/
def Fits (s : Settings) (b : Block) (region : List Lexeme) (names : List Text) : Prop :=
  ∀ ⦃o start front back : Text⦄ ⦃p m : Marker⦄, Slot o start front (textOf s region) back b p m →
    ∃ inner q, markersFrom s (start ++ front) region [] = some (inner.map Mark.marker) ∧
      Inside o b.family b.isInline 2 p inner q ∧ onSameLine o q m = b.isInline ∧
      clashes (some q) m = false ∧ Marker.editNames (inner.map Mark.marker) = names

namespace Slot

variable {o start front region back : Text} {b : Block} {p m q : Marker}

/-- The end marker does not clash with an open marker of its family, nor with an end marker. -/
theorem clashes_eq_false (h : Slot o start front region back b p m)
    (hq : q = p ∧ b.opening.family = b.ending.family ∨ q.isEnd = true) :
    clashes (some q) m = false := by
  rcases hq with ⟨rfl, hfamily⟩ | hq
  · simp [clashes, h.family, h.endFamily, hfamily]
  · simp [clashes, hq]

/-- Nothing in the slot of an inline block ends a line. -/
theorem onSameLine_of_inline (h : Slot o start front region back b p m) (hinline : b.isInline = true)
    {q r : Marker} (hregion : newline ∉ region) (hq : start.length ≤ q.closeEnd)
    (hr : r.openAt ≤ m.openAt) : onSameLine o q r = true := by
  obtain ⟨after, rfl⟩ := h.text
  have hslot : newline ∉ front ++ region ++ back := by
    have := h.inline hinline
    simp_all
  have hextract := Text.extract_append start (front ++ region ++ back) after
  rw [← List.length_append, ← h.ending] at hextract
  rw [onSameLine, decide_eq_true_eq]
  intro hmem
  exact hslot (hextract ▸ Text.mem_extract_mono hq hr hmem)

/-- In a block of whole lines, nothing in the region is on the line of the open marker. -/
theorem onSameLine_opening (h : Slot o start front region back b p m) (hlines : b.isInline = false)
    {r : Marker} (hr : (start ++ front).length ≤ r.openAt) : onSameLine o p r = false := by
  obtain ⟨after, rfl⟩ := h.text
  obtain ⟨line, rfl⟩ := h.lines hlines
  have htext : start ++ (line ++ [newline] ++ region ++ back) ++ after
      = start ++ (line ++ [newline]) ++ (region ++ back ++ after) := by simp
  rw [htext]
  exact Pairing.onSameLine_eq_false _ (by simp) h.opening.le hr

/-- Nothing in front of a line feed at the end of the region is on the line of the end marker. -/
theorem onSameLine_ending (h : Slot o start front (region ++ [newline]) back b p m)
    (hq : q.closeEnd ≤ (start ++ front ++ region).length) : onSameLine o q m = false := by
  obtain ⟨after, rfl⟩ := h.text
  have htext : start ++ (front ++ (region ++ [newline]) ++ back) ++ after
      = (start ++ front ++ region) ++ [newline] ++ (back ++ after) := by simp
  have hending := h.ending
  rw [htext]
  refine Pairing.onSameLine_eq_false _ (by simp) hq ?_
  rw [hending]
  simp

/-- What is between the open marker and the end marker is on the line of the open marker exactly if the block
is inline. -/
theorem onSameLine_opening_eq (h : Slot o start front region back b p m)
    (hline : b.isInline = true → newline ∉ region) {r : Marker} (hr : (start ++ front).length ≤ r.openAt)
    (hr' : r.openAt ≤ m.openAt) : onSameLine o p r = b.isInline := by
  cases hinline : b.isInline with
  | true => exact h.onSameLine_of_inline hinline (hline hinline) h.opening.ge hr'
  | false => exact h.onSameLine_opening hinline hr

/-- So it is on the line of the end marker, where the region of a block of whole lines ends in a line feed. -/
theorem onSameLine_ending_eq {stop : UInt8} (h : Slot o start front (region ++ [stop]) back b p m)
    (hline : b.isInline = true → newline ∉ region ++ [stop]) (hstop : b.isInline = false → stop = newline)
    (hq : start.length ≤ q.closeEnd) (hq' : q.closeEnd ≤ (start ++ front ++ region).length) :
    onSameLine o q m = b.isInline := by
  cases hinline : b.isInline with
  | true => exact h.onSameLine_of_inline hinline (hline hinline) hq le_rfl
  | false =>
    obtain rfl := hstop hinline
    exact h.onSameLine_ending hq'

/-- The markers that are read in a part of the region stand between the open marker and the end marker. -/
theorem bounds_of_read {s : Settings} {lead after tail : Text} {ls : List Lexeme} {ms : List Marker}
    (h : Slot o start front (lead ++ textOf s ls ++ tail) back b p m)
    (hread : markersFrom s (start ++ front ++ lead) ls after = some ms) : ∀ m' ∈ ms,
      (start ++ front).length ≤ m'.openAt ∧ m'.openAt ≤ m.openAt ∧ start.length ≤ m'.closeEnd ∧
        m'.closeEnd ≤ (start ++ front ++ (lead ++ textOf s ls)).length := by
  intro m' hm'
  obtain ⟨hstands, hle, hend⟩ := (Lexeme.stands_of_markersFrom hread).1 m' hm'
  have hwidth := hstands.openAt_le
  have hending := h.ending
  simp only [List.length_append] at hle hend hending ⊢
  omega

/-- In a block of whole lines, a margin is all that stands on its line. -/
theorem lastLine_eq (h : Slot o start front region back b p m) (hlines : b.isInline = false)
    {margin : Text} (hmargin : newline ∉ margin) : Text.lastLine (start ++ front ++ margin) = margin := by
  obtain ⟨line, rfl⟩ := h.lines hlines
  simpa using Text.lastLine_append_newline (start ++ line) hmargin

end Slot

namespace Fits

variable {s : Settings} {b : Block}

/-- **A region without markers fits into every block** of one family, if it is on one line where it has
to. -/
theorem ofText {w : Text} (hfamily : b.opening.family = b.ending.family)
    (hline : b.isInline = true → newline ∉ w) : Fits s b (ofText w) [] := by
  intro o start front back p m hslot
  rw [Lexeme.textOf_ofText] at hslot
  refine ⟨[], p, by simp, .nil, hslot.onSameLine_opening_eq hline ?_ le_rfl,
    hslot.clashes_eq_false (.inl ⟨rfl, hfamily⟩), rfl⟩
  rw [hslot.ending]
  simp

end Fits

/-! ## Contents with markers -/

/-- **The region of a block that is given a content**, as lexemes. -/
def Block.refilled (b : Block) (content? : Option (List Lexeme)) : List Lexeme :=
  if b.isInline then ofText [space] ++ content?.getD [] ++ ofText [space]
  else match content? with
    | none => []
    | some ls => ofText b.opening.bodyIndent ++ hung b.opening.bodyIndent ls ++ ofText [newline]

/-- Bodies are indented with tabs and spaces. -/
theorem Marker.isIndent_of_mem_bodyIndent {m : Marker} {b : UInt8} (h : b ∈ m.bodyIndent) :
    Text.isIndent b := by
  obtain ⟨c, -, rfl⟩ := List.mem_map.1 (List.mem_of_mem_take h)
  rw [Text.isIndent_iff]
  split
  · exact .inr rfl
  · exact .inl rfl

namespace Block

variable {s : Settings} {b : Block} {ls? : Option (List Lexeme)}

/-- The text of the region is what the body is rewritten to. -/
theorem textOf_refilled (hs : s.Solid) :
    textOf s (b.refilled ls?) = b.rewritten [space] (ls?.map (textOf s)) := by
  unfold refilled rewritten
  cases b.isInline with
  | true => cases ls? <;> simp
  | false =>
    cases ls? with
    | none => rfl
    | some ls =>
      simp only [Bool.false_eq_true, ite_false, Option.map_some, ← Text.indent_eq_ofLines,
        Lexeme.textOf_append, Lexeme.textOf_ofText, Lexeme.textOf_hung hs]
      rfl

/-- The region is lexed if the content is. -/
theorem lexed_refilled (hs : s.Solid)
    (husable : ∀ f, (s.tokens f).opener ≠ [] ∧ (s.tokens f).closer ≠ [])
    (h : ∀ ls ∈ ls?, Lexed s ls) : Lexed s (b.refilled ls?) := by
  have hblank : ∀ {t : Text}, (∀ c ∈ t, Text.IsGap c) → Lexed s (ofText t) := fun ht =>
    Lexeme.lexed_ofText_iff.2 fun f => Text.clear_of_isGap (hs.opener f) (husable f).1 ht
  have happend : ∀ {ls ls' : List Lexeme}, Lexed s ls → Lexed s ls' →
      Text.Seam (textOf s ls) (textOf s ls') → Lexed s (ls ++ ls') := fun h h' hseam =>
    h.append (hs.opener .generation) (hs.opener .edit) h' hseam
  have hmargin : ∀ c ∈ b.opening.bodyIndent, Text.isIndent c := fun c hc =>
    b.opening.isIndent_of_mem_bodyIndent hc
  unfold refilled
  split
  · have hcontent : Lexed s (ls?.getD []) := by
      cases ls? with
      | none => exact .nil
      | some ls => exact h ls rfl
    refine happend (happend (hblank (by simp [isGap_space])) hcontent ?_)
      (hblank (by simp [isGap_space])) ?_
    · exact .inr (.inr (.inl ⟨space, by simp, isGap_space⟩))
    · exact .inr (.inr (.inr ⟨space, by simp, isGap_space⟩))
  · cases ls? with
    | none => exact .nil
    | some ls =>
      refine happend (happend (hblank fun c hc => .of_isIndent (hmargin c hc))
        ((h ls rfl).hung hs husable hmargin) ?_) (hblank (by simp [isGap_newline])) ?_
      · rw [Lexeme.textOf_ofText]
        cases hlast : b.opening.bodyIndent.getLast? with
        | none => exact .inl (List.getLast?_eq_none_iff.1 hlast)
        | some c =>
          exact .inr (.inr (.inl ⟨c, hlast, .of_isIndent (hmargin c (List.mem_of_getLast? hlast))⟩))
      · exact .inr (.inr (.inr ⟨newline, by simp, isGap_newline⟩))

end Block

/-- **A document suits a block** if its text can become the content of the block, as far as its outermost
blocks matter: a block of whole lines admits no two that share a line, and an edit admits no edit. -/
structure Document.Suits (d : Document) (b : Block) : Prop where
  /-- In a block of whole lines, outermost blocks share no lines. -/
  lines : b.isInline = false →
    d.outermost.IsChain fun a c => onSameLine d.source a.ending c.opening = false
  /-- No edit stands directly inside an edit. -/
  edits : b.family = .edit → ∀ c ∈ d.outermost, c.family ≠ .edit

instance (d : Document) (b : Block) : Decidable (d.Suits b) :=
  decidable_of_iff ((b.isInline = false →
      d.outermost.IsChain fun a c => onSameLine d.source a.ending c.opening = false) ∧
    (b.family = .edit → ∀ c ∈ d.outermost, c.family ≠ .edit))
    ⟨fun h => ⟨h.1, h.2⟩, fun h => ⟨h.lines, h.edits⟩⟩

/-- An inline content gets a space on either side, one of whole lines a margin and a line feed. -/
theorem Block.exists_refilled (b : Block) (ls : List Lexeme) : ∃ lead margin stop,
    b.refilled (some ls) = ofText lead ++ hung margin ls ++ ofText [stop] ∧
      (∀ c ∈ margin, Text.isIndent c) ∧ (b.isInline = true → newline ∉ lead ∧ stop ≠ newline) ∧
      (b.isInline = false → lead = margin ∧ stop = newline) := by
  unfold refilled
  cases b.isInline with
  | true => exact ⟨[space], [], space, by simp, by simp, fun _ => by decide, by simp⟩
  | false =>
    exact ⟨_, _, newline, rfl, fun c hc => b.opening.isIndent_of_mem_bodyIndent hc, by simp,
      fun _ => ⟨rfl, rfl⟩⟩

/-- In front of the first line feed, all blocks are inline. -/
theorem Outermost.isInline_of_notMem {x z : Text} {previous? : Option Block} {marks : List Mark}
    (h : Outermost (x ++ z) previous? marks) (hx : newline ∉ x)
    (hmarks : ∀ m ∈ marks, m.marker.openAt ≤ x.length) :
    ∀ b ∈ Mark.outermost marks, b.isInline = true := by
  induction h with
  | nil => simp [Mark.outermost]
  | @block previous? b inner rest henclosed _ _ ih =>
    obtain ⟨q, -, hclose, -⟩ := henclosed.layout
    rw [Mark.outermost_block henclosed, List.forall_mem_cons]
    have hending := hmarks (.ending b) (by simp)
    exact ⟨hclose ▸ Pairing.onSameLine_of_notMem z hx q hending, ih fun m hm => hmarks m (by simp [hm])⟩

/-- Outermost blocks of a document that suits a block share lines exactly if the block is inline. -/
theorem Document.Suits.isChain {d : Document} {b : Block} {x z : Text} (h : d.Suits b)
    (ht : d.source = x ++ z) (hx : b.isInline = true → newline ∉ x)
    (hbound : ∀ mark ∈ d.marks, mark.marker.openAt ≤ x.length) :
    d.outermost.IsChain fun a c => onSameLine d.source a.ending c.opening = b.isInline := by
  cases hline : b.isInline with
  | true =>
    refine (List.pairwise_iff_forall_sublist.2 fun {a c} hsub => ?_).isChain
    have hc : c ∈ d.blocks := List.mem_of_mem_filter (hsub.subset (by simp))
    rw [ht]
    exact Pairing.onSameLine_of_notMem z (hx hline) a.ending
      (hbound _ (Mark.opening_mem_of_mem_blocks hc))
  | false => exact h.lines hline

/-- **A document that suits a block fits into it**, with its markers where they come to stand there. A line
feed at the end of its text may be left out. -/
theorem Fits.refilled {s : Settings} (hs : s.Solid) (hcloser : ∀ f, (s.tokens f).closer ≠ [])
    {b : Block} {d : Document} {ls : List Lexeme} {z : Text} (houter : Outermost d.source none d.marks)
    (ht : d.source = textOf s ls ++ z) (hread : markersFrom s [] ls [] = some (d.marks.map Mark.marker))
    (hinline : b.isInline = true → newline ∉ textOf s ls) (hsuits : d.Suits b)
    (hfamily : b.opening.family = b.ending.family) :
    Fits s b (b.refilled (some ls)) (Marker.editNames (d.marks.map Mark.marker)) := by
  intro o start front back p m hslot
  obtain ⟨lead, margin, stop, hrefilled, hmargin, hblank, hlines⟩ := b.exists_refilled ls
  have hnewline : b.isInline = true → newline ∉ lead ++ textOf s (hung margin ls) ++ [stop] := by
    intro h
    obtain ⟨hlead, hstop⟩ := hblank h
    simp [Lexeme.textOf_hung hs, Text.newline_mem_hang_iff, hlead, hinline h, Ne.symm hstop]
  rw [hrefilled] at hslot ⊢
  simp only [Lexeme.textOf_append, Lexeme.textOf_ofText] at hslot
  obtain ⟨after, ho⟩ := hslot.text
  -- the markers of the text are carried into the slot
  have hlast : newline ∈ textOf s ls →
      Text.lastLine (start ++ front ++ lead) = margin ++ Text.lastLine [] := by
    intro hmem
    have hlinesOf : b.isInline = false := Bool.eq_false_iff.2 fun h => hinline h hmem
    obtain ⟨rfl, -⟩ := hlines hlinesOf
    exact (hslot.lastLine_eq hlinesOf (Text.newline_notMem_of_isIndent hmargin)).trans
      (List.append_nil _).symm
  obtain ⟨ms', hms', hcarried⟩ := Lexeme.exists_carried hs hcloser hmargin none p hread hlast
    (show d.source = [] ++ textOf s ls ++ z by rw [ht, List.nil_append])
    (show o = start ++ front ++ lead ++ textOf s (hung margin ls) ++ (stop :: (back ++ after)) by
      rw [ho]; simp) (by simp)
  have hmarkers := hslot.bounds_of_read hms'
  have hfirst : ∀ m' ∈ ms'.head?, onSameLine o p m' = b.isInline := by
    intro m' hm'
    obtain ⟨hle, hbefore, -⟩ := hmarkers m' (List.mem_of_mem_head? hm')
    exact hslot.onSameLine_opening_eq hnewline hle hbefore
  have hbound : ∀ mark ∈ d.marks, mark.marker.openAt ≤ (textOf s ls).length := by
    intro mark hmark
    obtain ⟨hstands, -, hend⟩ :=
      (Lexeme.stands_of_markersFrom hread).1 _ (List.mem_map_of_mem hmark)
    exact hstands.openAt_le.trans hend
  obtain ⟨inner, q, rfl, hinside, hq⟩ := houter.carry_inside hcarried (fun _ => hfirst)
    (hsuits.isChain ht hinline hbound)
    (fun c hc => ⟨fun hline => (ht ▸ houter).isInline_of_notMem (hinline hline) hbound c hc,
      fun h => hsuits.edits h.2 c hc h.1⟩) 2
  have hqend : start.length ≤ q.closeEnd ∧
      q.closeEnd ≤ (start ++ front ++ (lead ++ textOf s (hung margin ls))).length := by
    rcases hinside.last_mem with rfl | hq
    · rw [hslot.opening]
      simp
    · exact (hmarkers q hq).2.2
  refine ⟨inner, q, ?_, hinside,
    hslot.onSameLine_ending_eq hnewline (fun h => (hlines h).2) hqend.1 hqend.2,
    hslot.clashes_eq_false (hq.imp_left fun hq => ⟨hq.2, hfamily⟩), hcarried.editNames⟩
  rw [List.append_assoc, Lexeme.markersFrom_ofText_append]
  refine Lexeme.markersFrom_append.2 ⟨inner.map Mark.marker, [], ?_, Lexeme.markersFrom_ofText ..,
    (List.append_nil _).symm⟩
  rw [← hms']
  exact Lexeme.markersFrom_congr_after (fun f => (hs.opener f).newline_notMem) hcloser ..

end Regen
