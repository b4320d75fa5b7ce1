import Regen.Proofs.Fitting

/-!
# The blocks of a regenerated text

A text that was cut into cells and whose cells got new regions is cut into the new cells in turn
(`Cut.refill`), provided that the regions fit and that no header changes. Each outermost block is
renewed: it has alike markers, is laid out the same way, and its body is the one that was
written (`Block.Renewed`).

A header can only change if it takes several lines and something was written in front of its marker on
its line, so two conditions rule this out (`Mark.Steady`): the line of an open marker with such a header
holds no part of the block before it, and the end marker of an inline block has no such header.

The proof goes through both texts cell by cell. What it needs of the cells in front is where the two texts
go on (`Cut.Abreast`), and one cell is dealt with by `Cell.Holds.exists_renewed`.
-/

namespace Regen

open Lexeme (ofText textOf text read? markersFrom Lexed)
open Text (space newline)
open Pairing (onSameLine)

/-! ## Renewed blocks -/

/-- **A block with a new content**: its markers read as before and it is laid out as before, but its
body is what was written. -/
structure Block.Renewed (b : Block) (content? : Option Text) (b' : Block) : Prop where
  /-- The open markers are alike. -/
  opening : b.opening.Alike b'.opening
  /-- The end markers are alike. -/
  ending : b.ending.Alike b'.ending
  /-- The blocks are laid out alike. -/
  isInline : b'.isInline = b.isInline
  /-- What stands in front of a block of whole lines is the same. -/
  lead : b.isInline = false → b'.opening.lead = b.opening.lead
  /-- The body is the one that was written. -/
  body : b'.body = if b.isInline then content?.getD []
    else content?.elim [] (Text.indent b.opening.bodyIndent)

/-- A renewed block is rewritten as the block is. -/
theorem Block.Renewed.rewritten {b b' : Block} {content? : Option Text} (h : b.Renewed content? b')
    (padding : Text) (x? : Option Text) : b'.rewritten padding x? = b.rewritten padding x? := by
  unfold Block.rewritten
  rw [h.isInline]
  split
  · rfl
  · rename_i hinline
    rw [h.opening.bodyIndent (h.lead (by simpa using hinline))]

/-- What is in one of two related lists has a partner in the other. -/
theorem exists_rel_of_mem {α β : Type} {R : α → β → Prop} {as : List α} {bs : List β}
    (h : List.Forall₂ R as bs) {a : α} (ha : a ∈ as) : ∃ b ∈ bs, R a b := by
  obtain ⟨i, hi, rfl⟩ := List.getElem_of_mem ha
  have hi' : i < bs.length := h.length_eq ▸ hi
  exact ⟨bs[i], List.getElem_mem hi', h.get hi hi'⟩

/-- What each block has in common with the block that it is renewed to, all of them have in turn. -/
theorem Block.Renewed.forall₂ {R : Block → Block → Prop} {bs bs' : List Block}
    {cs : List (Option Text)} (h : List.Forall₂ (fun p b' => p.1.Renewed p.2 b') (bs.zip cs) bs')
    (hlength : cs.length = bs.length)
    (hR : ∀ p ∈ bs.zip cs, ∀ b', p.1.Renewed p.2 b' → R p.1 b') : List.Forall₂ R bs bs' := by
  have hzip : List.Forall₂ (fun p b' => R p.1 b') (bs.zip cs) bs' :=
    ((List.forall₂_and_left _ _).2 ⟨fun _ hp => hp, h⟩).imp fun p b' hp => hR p hp.1 b' hp.2
  rwa [← List.forall₂_map_left_iff, List.map_fst_zip hlength.ge] at hzip

/-- Renewed blocks are written with the same contents as they were. -/
theorem Refilled.again {s : Settings} {cells cells' : List Cell} {bs bs' : List Block}
    {cs : List (Option Text)} (h : Refilled s cells bs cs cells')
    (hrenewed : List.Forall₂ (fun p b' => p.1.Renewed p.2 b') (bs.zip cs) bs') :
    Refilled s cells' bs' cs cells' := by
  induction h generalizing bs' with
  | nil =>
    cases hrenewed
    exact .nil
  | cons htext _ ih =>
    obtain _ | ⟨hb, hbs⟩ := hrenewed
    exact .cons (by rw [htext, hb.rewritten]) (ih hbs)

/-- **Regions that fit** into the blocks of their cells. `names` are those of all edits that are
opened, by the blocks or inside them. -/
inductive Fitted (s : Settings) : List Block → List Cell → (names : List Text) → Prop
  /-- No blocks. -/
  | nil : Fitted s [] [] []
  /-- A block and those behind it. -/
  | cons {b : Block} {c : Cell} {bs : List Block} {cells : List Cell} {inner names : List Text}
      (hfits : Fits s b c.region inner) (hrest : Fitted s bs cells names) :
      Fitted s (b :: bs) (c :: cells) (Marker.editNames [b.opening] ++ inner ++ names)

/-! ## Headers that stay -/

/-- The header of a marker as it is written. -/
def Marker.written (t : Text) (m : Marker) : Text :=
  t.extract (m.openAt + m.tokens.opener.length) (m.closeEnd - m.tokens.closer.length)

/-- The header of a marker that is read is the one that is written. -/
theorem Lexeme.written_of_read? {s : Settings} {before raw after t z : Text} {f : Family} {m : Marker}
    (h : read? s before f raw after = some m) (ht : t = before ++ text s (.marker f raw) ++ z) :
    m.written t = raw := by
  obtain ⟨lines, -, rfl⟩ := Option.map_eq_some_iff.1 h
  have hraw := Text.extract_append (before ++ (s.tokens f).opener) raw ((s.tokens f).closer ++ z)
  rw [ht, Marker.written, ← hraw]
  congr 1
  · simp [text]
  · simp
  · simp [text]
    omega

/-- **Outermost blocks whose headers stay** when other bodies are written: an open marker with a header
of several lines starts behind the line on which the block before it ends, and an end marker with such
a header belongs to a block of whole lines. -/
structure Mark.Steady (t : Text) (previous? : Option Block) (bs : List Block) : Prop where
  /-- Nothing of the block before stands in front of a header of several lines. -/
  opening : (previous?.toList ++ bs).IsChain fun a b =>
    newline ∈ b.opening.written t → a.ending.closeEnd ≤ b.opening.lineStart
  /-- No inline body stands in front of a header of several lines. -/
  ending : ∀ b ∈ bs, newline ∈ b.ending.written t → b.isInline = false

instance (t : Text) (previous? : Option Block) (bs : List Block) :
    Decidable (Mark.Steady t previous? bs) :=
  decidable_of_iff ((previous?.toList ++ bs).IsChain (fun a b =>
      newline ∈ b.opening.written t → a.ending.closeEnd ≤ b.opening.lineStart) ∧
    ∀ b ∈ bs, newline ∈ b.ending.written t → b.isInline = false)
    ⟨fun h => ⟨h.1, h.2⟩, fun h => ⟨h.opening, h.ending⟩⟩

/-- **Two texts end alike** if nothing is in front of either or both end in the same marker. -/
def Text.Tied (x x' : Text) : Prop := x = x' ∨ ∃ e, e ≠ [] ∧ e <:+ x ∧ e <:+ x'

/-- Where two texts end alike, what is added to them is on the same line, if nothing of what they end in
is on that line. -/
theorem Text.Tied.lastLine_eq {x x' gap : Text} (h : Tied x x')
    (hgap : x ≠ x' → (lastLine (x ++ gap)).length ≤ gap.length) :
    lastLine (x' ++ gap) = lastLine (x ++ gap) := by
  by_cases hx : x = x'
  · rw [hx]
  · obtain ⟨e, he, ⟨u, rfl⟩, ⟨u', rfl⟩⟩ := h.resolve_left hx
    by_cases hnewline : newline ∈ gap
    · rw [lastLine_append_of_mem _ hnewline, lastLine_append_of_mem _ hnewline]
    · have hlen := hgap hx
      rw [lastLine_append_of_notMem _ hnewline, List.length_append] at hlen
      have hnil : lastLine (u ++ e) = [] := List.eq_nil_of_length_eq_zero (by omega)
      -- so a line ends where the texts do
      obtain ⟨e', c, rfl⟩ := (List.eq_nil_or_concat e).resolve_left he
      obtain rfl : c = newline := by
        by_contra hc
        rw [List.concat_eq_append, ← List.append_assoc,
          lastLine_append_of_notMem _ (by simpa using Ne.symm hc)] at hnil
        simp at hnil
      have hend : ∀ v, lastLine (v ++ e'.concat newline) = [] := by
        intro v
        rw [List.concat_eq_append, ← List.append_assoc]
        exact lastLine_append_newline (v ++ e') List.not_mem_nil
      rw [lastLine_append_of_notMem _ hnewline, lastLine_append_of_notMem _ hnewline, hend, hend]

/-- The end marker of a block of whole lines is the first on its line. -/
theorem Parted.lastLine_eq {front region back body : Text} (h : Parted false front region back body)
    (x : Text) : Text.lastLine (x ++ (front ++ region ++ back)) = back := by
  cases h with
  | @empty front back _ hback =>
    have hlast := Text.lastLine_append_newline (x ++ front) hback
    simpa using hlast
  | @lines front body back _ hback =>
    have hlast := Text.lastLine_append_newline (x ++ front ++ newline :: body) hback
    simpa using hlast

/-! ## New cells -/

/-- **The markers of a cell with a new region are read as before**, if what stands in front of their headers of
several lines on the first of these lines is the same. -/
theorem Cell.Holds.read?_behind {s : Settings} {pre pre' body : Text} {c : Cell} {b : Block}
    {region : List Lexeme} (hopener : ∀ f, newline ∉ (s.tokens f).opener)
    (hcloser : ∀ f, (s.tokens f).closer ≠ []) (h : c.Holds s pre b)
    (hparted : Parted b.isInline c.front (textOf s region) c.back body)
    (hopen : newline ∈ c.openRaw → Text.lastLine (pre' ++ c.gap) = Text.lastLine (pre ++ c.gap))
    (hend : newline ∈ c.endRaw → b.isInline = false) :
    read? s (pre' ++ c.gap) c.openFamily c.openRaw [] = some (b.opening.behind (pre' ++ c.gap)) ∧
      read? s (pre' ++ textOf s (c.head ++ region) ++ c.back) c.endFamily c.endRaw []
        = some (b.ending.behind (pre' ++ textOf s (c.head ++ region) ++ c.back)) := by
  refine ⟨Lexeme.read?_behind (hopener _) (hcloser _) h.opening hopen [],
    Lexeme.read?_behind (hopener _) (hcloser _) h.ending (fun hraw => ?_) []⟩
  have hlines := hend hraw
  have hbefore := (hlines ▸ h.parted).lastLine_eq
    (pre ++ c.gap ++ text s (.marker c.openFamily c.openRaw))
  have hafter := (hlines ▸ hparted).lastLine_eq
    (pre' ++ c.gap ++ text s (.marker c.openFamily c.openRaw))
  simpa [head] using hafter.trans hbefore.symm

/-- **A block is found again in a cell with a new region.** -/
theorem Cell.Holds.refill {s : Settings} {pre pre' o after : Text} {c : Cell} {b : Block}
    {content? : Option Text} {region : List Lexeme}
    (hopener : ∀ f, newline ∉ (s.tokens f).opener) (hcloser : ∀ f, (s.tokens f).closer ≠ [])
    (h : c.Holds s pre b) (htext : textOf s region = b.rewritten [space] content?)
    (ho : o = pre' ++ textOf s { c with region }.lexemes ++ after)
    (hopen : newline ∈ c.openRaw → Text.lastLine (pre' ++ c.gap) = Text.lastLine (pre ++ c.gap))
    (hend : newline ∈ c.endRaw → b.isInline = false)
    (hlead : b.isInline = false → Text.lastLine (pre' ++ c.gap) = Text.lastLine (pre ++ c.gap)) :
    ∃ b' : Block, { c with region }.Holds s pre' b' ∧ b.Renewed content? b' ∧
      b' = .ofMarkers o b'.opening b'.ending 1 b'.isInline := by
  have hparted := h.parted.rewritten content?
  rw [← htext] at hparted
  obtain ⟨hopening, hending⟩ := h.read?_behind hopener hcloser hparted hopen hend
  set back' := pre' ++ textOf s (c.head ++ region) ++ c.back with hback'
  have hback : back' = pre' ++ c.gap ++ text s (.marker c.openFamily c.openRaw)
      ++ (c.front ++ textOf s region ++ c.back) := by
    rw [hback']
    simp [head]
  have hencases := hparted.encases (text s (.marker c.endFamily c.endRaw) ++ after) 1
    (Lexeme.closeEnd_of_read? hopening).2 (hback ▸ (Lexeme.closeEnd_of_read? hending).1)
    (hback ▸ Lexeme.lead_of_read? hending)
  rw [← hback, show back' ++ (text s (.marker c.endFamily c.endRaw) ++ after) = o by
    rw [ho, hback]; simp [lexemes, head, foot]] at hencases
  refine ⟨.ofMarkers o (b.opening.behind (pre' ++ c.gap)) (b.ending.behind back') 1 b.isInline,
    ⟨?_, ?_, ?_, ?_, ?_, ?_⟩, ⟨?_, ?_, ?_, ?_, ?_⟩, by simp⟩
  · rw [Block.ofMarkers_opening, hopening]
  · rw [Block.ofMarkers_ending]
    exact hending
  · rw [Block.ofMarkers_isInline, hencases.body]
    exact hparted
  · rw [Block.ofMarkers_isInline]
    exact h.line
  · rw [hencases.openStop]
    simp [head]
  · rw [hencases.endStart]
    simp [head]
  · rw [Block.ofMarkers_opening]
    exact b.opening.alike_behind _
  · rw [Block.ofMarkers_ending]
    exact b.ending.alike_behind _
  · rw [Block.ofMarkers_isInline]
  · intro hlines
    rw [Block.ofMarkers_opening, Lexeme.lead_of_read? h.opening]
    exact hlead hlines
  · exact hencases.body

namespace Cell.Holds

variable {s : Settings} {t pre z : Text} {c : Cell} {b : Block}

/-- The headers of the block are written as the cell has them. -/
theorem written_eq (h : c.Holds s pre b) (ht : t = pre ++ textOf s c.lexemes ++ z) :
    b.opening.written t = c.openRaw ∧ b.ending.written t = c.endRaw := by
  constructor
  · refine Lexeme.written_of_read? (z := textOf s (ofText c.front ++ c.region ++ c.foot) ++ z)
      h.opening ?_
    rw [ht]
    simp [lexemes, head]
  · refine Lexeme.written_of_read? (z := z) h.ending ?_
    rw [ht]
    simp [lexemes, foot]

/-- The end marker ends where the cell does. -/
theorem closeEnd_eq (h : c.Holds s pre b) : b.ending.closeEnd = (pre ++ textOf s c.lexemes).length := by
  rw [(Lexeme.closeEnd_of_read? h.ending).2]
  simp [lexemes, foot]

/-- The block starts on the line on which something ends in front of the cell exactly if the gap is on one
line. -/
theorem onSameLine_eq (h : c.Holds s pre b) (ht : t = pre ++ textOf s c.lexemes ++ z) {p : Marker}
    (hp : p.closeEnd = pre.length) : onSameLine t p b.opening = decide (newline ∉ c.gap) := by
  have hgap : t = pre ++ c.gap ++ (text s (.marker c.openFamily c.openRaw)
      ++ textOf s (ofText c.front ++ c.region ++ c.foot) ++ z) := by
    rw [ht]
    simp [lexemes, head]
  rw [hgap]
  exact Pairing.onSameLine_append _ hp (Lexeme.closeEnd_of_read? h.opening).1

/-- **The region of a cell is in a slot** for the block that was renewed to the one of the cell. -/
theorem slot (h : c.Holds s pre b) (ht : t = pre ++ textOf s c.lexemes ++ z) {a : Block}
    {content? : Option Text} (hrenewed : a.Renewed content? b) (hends : a.ending.isEnd = true) :
    Slot t (pre ++ c.gap ++ text s (.marker c.openFamily c.openRaw)) c.front (textOf s c.region) c.back a
      b.opening b.ending where
  text := ⟨text s (.marker c.endFamily c.endRaw) ++ z, by rw [ht]; simp [lexemes, head, foot]⟩
  opening := (Lexeme.closeEnd_of_read? h.opening).2
  ending := by
    rw [(Lexeme.closeEnd_of_read? h.ending).1]
    simp [head]
  ends := hrenewed.ending.isEnd.trans hends
  family := hrenewed.opening.family
  endFamily := hrenewed.ending.family
  inline hinline := h.line (hrenewed.isInline.trans hinline)
  lines hlines := by
    have hparted := h.parted
    rw [hrenewed.isInline, hlines] at hparted
    exact hparted.front_of_lines.2

end Cell.Holds

/-- **The block of a new cell encloses what is in its region**, if the region fits into the block that it
was renewed to. -/
theorem Cell.Holds.exists_encloses {s : Settings} {t o pre z : Text} {c : Cell} {b b' : Block}
    {content? : Option Text} {inner : List Mark} {names : List Text} (h : c.Holds s pre b')
    (ho : o = pre ++ textOf s c.lexemes ++ z) (henclosed : Encloses t 1 b inner)
    (hrenewed : b.Renewed content? b') (hformed : b' = .ofMarkers o b'.opening b'.ending 1 b'.isInline)
    (hfits : Fits s b c.region names) :
    ∃ inner', markersFrom s (pre ++ textOf s c.head) c.region [] = some (inner'.map Mark.marker) ∧
      Encloses o 1 b' inner' ∧ Marker.editNames (inner'.map Mark.marker) = names := by
  obtain ⟨inner', q, hread, hinside, hclose, hclash, hnames⟩ :=
    hfits (h.slot ho hrenewed henclosed.ends)
  rw [← hrenewed.isInline] at hinside hclose
  refine ⟨inner', ?_, ⟨hrenewed.opening.isEnd.trans henclosed.opens,
    hrenewed.ending.isEnd.trans henclosed.ends, hformed, q, ?_, hclose, hclash⟩, hnames⟩
  · rw [← hread]
    simp [head]
  · rwa [Block.family, hrenewed.opening.family]

/-! ## Cell by cell -/

/-- **Where two texts go on** that have the same cells with different regions: at their starts, which are
the same, or behind a block that ends in both with the same marker and is laid out alike. -/
inductive Cut.Abreast : (pre pre' : Text) → (previous? previous?' : Option Block) → Prop
  /-- There are no cells in front. -/
  | start {pre : Text} : Abreast pre pre none none
  /-- The last block in front ends in the same marker. -/
  | behind {x x' e : Text} {a a' : Block} (hmarker : e ≠ []) (hinline : a'.isInline = a.isInline)
      (hend : a.ending.closeEnd = (x ++ e).length) (hend' : a'.ending.closeEnd = (x' ++ e).length) :
      Abreast (x ++ e) (x' ++ e) (some a) (some a')

namespace Cut.Abreast

variable {s : Settings} {t o pre pre' z z' : Text} {previous? previous?' : Option Block} {c c' : Cell}
  {b b' : Block}

/-- The texts end alike. -/
theorem tied (h : Abreast pre pre' previous? previous?') : Text.Tied pre pre' := by
  cases h with
  | start => exact .inl rfl
  | @behind x x' e _ _ hmarker _ _ _ =>
    exact .inr ⟨e, hmarker, List.suffix_append x e, List.suffix_append x' e⟩

/-- The block in front ends where the text does. -/
theorem closeEnd_eq (h : Abreast pre pre' previous? previous?') {a : Block} (ha : a ∈ previous?) :
    a.ending.closeEnd = pre.length := by
  cases h with
  | start => cases ha
  | behind _ _ hend _ =>
    obtain rfl := Option.some.inj ha
    exact hend

/-- A gap goes on with the same line, if no part of the block in front is on it. -/
theorem lastLine_eq (h : Abreast pre pre' previous? previous?') {gap : Text}
    (hgap : ∀ a ∈ previous?, (Text.lastLine (pre ++ gap)).length ≤ gap.length) :
    Text.lastLine (pre' ++ gap) = Text.lastLine (pre ++ gap) := by
  refine h.tied.lastLine_eq fun hne => ?_
  cases h with
  | start => exact absurd rfl hne
  | behind => exact hgap _ rfl

/-- So it does in front of a header of several lines that is steady. -/
theorem lastLine_eq_of_steady (h : Abreast pre pre' previous? previous?') (hholds : c.Holds s pre b)
    (ht : t = pre ++ textOf s c.lexemes ++ z) {bs : List Block}
    (hsteady : Mark.Steady t previous? (b :: bs)) (hraw : newline ∈ c.openRaw) :
    Text.lastLine (pre' ++ c.gap) = Text.lastLine (pre ++ c.gap) := by
  refine h.lastLine_eq fun a ha => ?_
  have hclose := h.closeEnd_eq ha
  obtain rfl : previous? = some a := ha
  have hline := (List.isChain_cons_cons.1 hsteady.opening).1 ((hholds.written_eq ht).1 ▸ hraw)
  have hlength := (Text.lastLine_suffix (pre ++ c.gap)).length_le
  rw [hclose, Marker.lineStart, (Lexeme.closeEnd_of_read? hholds.opening).1,
    Lexeme.lead_of_read? hholds.opening] at hline
  simp only [List.length_append] at hline hlength
  omega

/-- So it does in front of a block of whole lines. -/
theorem lastLine_eq_of_lines (h : Abreast pre pre' previous? previous?') (hholds : c.Holds s pre b)
    (ht : t = pre ++ textOf s c.lexemes ++ z)
    (hfits : ∀ a ∈ previous?, onSameLine t a.ending b.opening → a.isInline ∧ b.isInline)
    (hlines : b.isInline = false) :
    Text.lastLine (pre' ++ c.gap) = Text.lastLine (pre ++ c.gap) := by
  refine h.lastLine_eq fun a ha => ?_
  have hmem : newline ∈ c.gap := by
    by_contra hmem
    have hinline := (hfits a ha (by simp [hholds.onSameLine_eq ht (h.closeEnd_eq ha), hmem])).2
    simp [hlines] at hinline
  rw [Text.lastLine_append_of_mem _ hmem]
  exact (Text.lastLine_suffix c.gap).length_le

/-- A block is on the line of the one in front in both texts or in neither. -/
theorem exists_onSameLine_eq (h : Abreast pre pre' previous? previous?') (hholds : c.Holds s pre b)
    (ht : t = pre ++ textOf s c.lexemes ++ z) (hholds' : c'.Holds s pre' b')
    (ho : o = pre' ++ textOf s c'.lexemes ++ z') (hgap : c'.gap = c.gap) {a' : Block}
    (ha' : a' ∈ previous?') : ∃ a ∈ previous?, a'.isInline = a.isInline ∧
      onSameLine o a'.ending b'.opening = onSameLine t a.ending b.opening := by
  cases h with
  | start => cases ha'
  | @behind _ _ _ a _ _ hinline hend hend' =>
    obtain rfl := Option.some.inj ha'
    refine ⟨a, rfl, hinline, ?_⟩
    rw [hholds.onSameLine_eq ht hend, hholds'.onSameLine_eq ho hend', hgap]

/-- Behind a cell with a new region, both texts go on. -/
theorem of_holds {region : List Lexeme} (hholds : c.Holds s pre b)
    (hholds' : { c with region }.Holds s pre' b') (hinline : b'.isInline = b.isInline)
    (hopener : (s.tokens c.endFamily).opener ≠ []) :
    Abreast (pre ++ textOf s c.lexemes) (pre' ++ textOf s { c with region }.lexemes) (some b)
      (some b') := by
  have hclose := hholds.closeEnd_eq
  have hclose' := hholds'.closeEnd_eq
  have htext : ∀ (x : Text) (d : Cell), x ++ textOf s d.lexemes
      = x ++ textOf s (d.head ++ d.region) ++ d.back ++ text s (.marker d.endFamily d.endRaw) := by
    simp [Cell.lexemes, Cell.foot]
  rw [htext] at hclose hclose'
  rw [htext, htext]
  exact .behind (by simp [text, hopener]) hinline hclose hclose'

end Cut.Abreast

/-- **A block in a cell that got a new region that fits** is found again, renewed, and encloses what is in
the region. -/
theorem Cell.Holds.exists_renewed {s : Settings} {t o pre pre' z z' : Text}
    {previous? previous?' : Option Block} {c : Cell} {b : Block} {bs : List Block} {inner : List Mark}
    {content? : Option Text} {region : List Lexeme} {names : List Text}
    (hopener : ∀ f, newline ∉ (s.tokens f).opener) (hcloser : ∀ f, (s.tokens f).closer ≠ [])
    (h : c.Holds s pre b) (ht : t = pre ++ textOf s c.lexemes ++ z)
    (habreast : Cut.Abreast pre pre' previous? previous?') (hsteady : Mark.Steady t previous? (b :: bs))
    (henclosed : Encloses t 1 b inner)
    (hfits : ∀ a ∈ previous?, onSameLine t a.ending b.opening → a.isInline ∧ b.isInline)
    (htext : textOf s region = b.rewritten [space] content?) (hregion : Fits s b region names)
    (ho : o = pre' ++ textOf s { c with region }.lexemes ++ z') :
    ∃ b' inner', { c with region }.Holds s pre' b' ∧ b.Renewed content? b' ∧
      markersFrom s (pre' ++ textOf s { c with region }.head) region [] = some (inner'.map Mark.marker) ∧
      Encloses o 1 b' inner' ∧ Marker.editNames (inner'.map Mark.marker) = names := by
  obtain ⟨-, hendRaw⟩ := h.written_eq ht
  obtain ⟨b', hholds, hrenewed, hformed⟩ := h.refill hopener hcloser htext ho
    (habreast.lastLine_eq_of_steady h ht hsteady)
    (fun hraw => hsteady.ending b (by simp) (hendRaw ▸ hraw))
    (habreast.lastLine_eq_of_lines h ht hfits)
  obtain ⟨inner', hread, hencloses, hnames⟩ :=
    hholds.exists_encloses ho henclosed hrenewed hformed hregion
  exact ⟨b', inner', hholds, hrenewed, hread, hencloses, hnames⟩

/-- **The new cells of a text are cells again**, of renewed blocks, and the marks inside these blocks
are those of the regions. Outermost blocks that were on different lines are so again. -/
theorem Cut.refill {s : Settings} {t pre tail : Text} {previous? : Option Block} {cells : List Cell}
    {marks : List Mark} (hopener : ∀ f, (s.tokens f).opener ≠ [] ∧ newline ∉ (s.tokens f).opener)
    (hcloser : ∀ f, (s.tokens f).closer ≠ []) (h : Cut s t pre previous? cells marks)
    (ht : t = pre ++ textOf s (cells.flatMap Cell.lexemes) ++ tail)
    (hsteady : Mark.Steady t previous? (Mark.outermost marks))
    {cs : List (Option Text)} {cells' : List Cell} {names : List Text}
    (hrefilled : Refilled s cells (Mark.outermost marks) cs cells')
    (hfitted : Fitted s (Mark.outermost marks) cells' names)
    {o pre' tail' : Text} {previous?' : Option Block}
    (ho : o = pre' ++ textOf s (cells'.flatMap Cell.lexemes) ++ tail')
    (habreast : Abreast pre pre' previous? previous?') :
    ∃ marks', Cut s o pre' previous?' cells' marks' ∧
      List.Forall₂ (fun p b' => p.1.Renewed p.2 b') ((Mark.outermost marks).zip cs)
        (Mark.outermost marks') ∧
      Marker.editNames (marks'.map Mark.marker) = names ∧
      ((previous?.toList ++ Mark.outermost marks).IsChain
          (fun a b => onSameLine t a.ending b.opening = false) →
        (previous?'.toList ++ Mark.outermost marks').IsChain
          fun a b => onSameLine o a.ending b.opening = false) := by
  induction h generalizing cs cells' names pre' previous?' with
  | nil =>
    obtain _ | _ := hrefilled
    obtain _ | _ := hfitted
    refine ⟨[], .nil, by simp [Mark.outermost], rfl, fun _ => ?_⟩
    cases previous?' <;> simp [Mark.outermost]
  | @cons pre previous? c b cells inner rest hholds hread henclosed hfits hcut ih =>
    rw [Mark.outermost_block henclosed] at hsteady hrefilled hfitted ⊢
    obtain _ | @⟨_, _, content?, region, _, cells', _, cs, htext, hrefilled⟩ := hrefilled
    obtain _ | @⟨_, _, _, _, innerNames, names, hregion, hfitted⟩ := hfitted
    have hcell : t = pre ++ textOf s c.lexemes ++ (textOf s (cells.flatMap Cell.lexemes) ++ tail) := by
      rw [ht]
      simp
    have hcell' : o = pre' ++ textOf s { c with region }.lexemes ++
        (textOf s (cells'.flatMap Cell.lexemes) ++ tail') := by
      rw [ho]
      simp
    obtain ⟨b', inner', hholds', hrenewed, hread', henclosed', rfl⟩ :=
      hholds.exists_renewed (fun f => (hopener f).2) hcloser hcell habreast hsteady henclosed hfits htext
        hregion hcell'
    have hsame : ∀ a' ∈ previous?', ∃ a ∈ previous?, a'.isInline = a.isInline ∧
        onSameLine o a'.ending b'.opening = onSameLine t a.ending b.opening :=
      fun _ ha' => habreast.exists_onSameLine_eq hholds hcell hholds' hcell' rfl ha'
    obtain ⟨rest', hcut', hforall, hnames, hchain⟩ := ih (by rw [ht]; simp)
      ⟨(List.isChain_append.1 hsteady.opening).2.1, fun d hd => hsteady.ending d (by simp [hd])⟩
      hrefilled hfitted
      (show o = (pre' ++ textOf s { c with region }.lexemes) ++ textOf s (cells'.flatMap Cell.lexemes)
        ++ tail' by rw [ho]; simp)
      (.of_holds hholds hholds' hrenewed.isInline (hopener _).1)
    refine ⟨.opening b' :: (inner' ++ .ending b' :: rest'), .cons hholds' hread' henclosed' ?_ hcut',
      ?_, ?_, ?_⟩
    · intro a' ha' hline
      obtain ⟨a, ha, hinline, hsameLine⟩ := hsame a' ha'
      rw [hinline, hrenewed.isInline]
      exact hfits a ha (hsameLine ▸ hline)
    · rw [Mark.outermost_block henclosed']
      exact .cons hrenewed hforall
    · rw [Marker.editNames_block henclosed'.ends, hrenewed.opening.editNames, hnames]
    · intro hlines
      rw [Mark.outermost_block henclosed']
      have htail := hchain (List.isChain_append.1 hlines).2.1
      cases previous?' with
      | none => exact htail
      | some a' =>
        obtain ⟨a, ha, -, hsameLine⟩ := hsame a' rfl
        obtain rfl : previous? = some a := ha
        exact List.isChain_cons_cons.2
          ⟨hsameLine.trans (List.isChain_cons_cons.1 hlines).1, htail⟩

end Regen
