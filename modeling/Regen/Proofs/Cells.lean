import Regen.Proofs.Body
import Regen.Proofs.Carrying
import Regen.Proofs.Frame

/-!
# Documents cut into cells

A document is a sequence of *cells*, one for each outermost block, and a tail. A cell begins with the
gap in front of the open marker and ends with the end marker, and what stands between the markers
falls into front, region and back. Regeneration gives every cell a new region and leaves the rest as
it is (`Celled.patch_eq`).

Unlike spans, cells know where the markers inside a block are: a region is a list of lexemes. That a
document can be cut so takes more than that it can be read, because the front of an inline block ends
at the first space, and that may be inside the header of another marker. `Document.SpansApart` rules
this out.
-/

namespace Regen

open Lexeme (ofText textOf text read? markersFrom Lexed)

/-- An outermost block with the gap in front of it, as lexemes. -/
structure Cell where
  /-- The text in front of the open marker. -/
  gap : Text
  /-- The family of the open marker. -/
  openFamily : Family
  /-- The header of the open marker as it is written. -/
  openRaw : Text
  /-- What is written back with the open marker. -/
  front : Text
  /-- What is written anew. -/
  region : List Lexeme
  /-- What is written back with the end marker. -/
  back : Text
  /-- The family of the end marker. -/
  endFamily : Family
  /-- The header of the end marker as it is written. -/
  endRaw : Text

namespace Cell

variable (s : Settings)

/-- The lexemes up to the region. -/
def head (c : Cell) : List Lexeme :=
  ofText c.gap ++ .marker c.openFamily c.openRaw :: ofText c.front

/-- The lexemes from the region on. -/
def foot (c : Cell) : List Lexeme := ofText c.back ++ [.marker c.endFamily c.endRaw]

/-- All lexemes. -/
def lexemes (c : Cell) : List Lexeme := c.head ++ c.region ++ c.foot

/-- **A cell holds a block** whose markers are read where they stand in the cell. -/
structure Holds (pre : Text) (c : Cell) (b : Block) : Prop where
  /-- The open marker is read behind the gap. -/
  opening : read? s (pre ++ c.gap) c.openFamily c.openRaw [] = some b.opening
  /-- The end marker is read behind the back. -/
  ending : read? s (pre ++ textOf s (c.head ++ c.region) ++ c.back) c.endFamily c.endRaw []
    = some b.ending
  /-- The text between the markers has the parts of the cell. -/
  parted : Parted b.isInline c.front (textOf s c.region) c.back b.body
  /-- An inline block is on one line up to its region and behind it. -/
  line : b.isInline → Text.newline ∉ c.front ++ c.back
  /-- The span of the open marker ends with the front. -/
  openStop : b.openSpan.stop = (pre ++ textOf s c.head).length
  /-- The span of the end marker begins with the back. -/
  endStart : b.endSpan.start = (pre ++ textOf s (c.head ++ c.region)).length

end Cell

/-- **Cells of blocks**, each behind all that come before it. -/
inductive Celled (s : Settings) : (pre : Text) → List Cell → List Block → Prop
  /-- No cells. -/
  | nil {pre : Text} : Celled s pre [] []
  /-- A cell and those behind it. -/
  | cons {pre : Text} {c : Cell} {b : Block} {cells : List Cell} {bs : List Block}
      (hholds : c.Holds s pre b) (hrest : Celled s (pre ++ textOf s c.lexemes) cells bs) :
      Celled s pre (c :: cells) (b :: bs)

/-- **Cells with new regions**, which are what blocks with these contents are rewritten to. -/
inductive Refilled (s : Settings) :
    List Cell → List Block → List (Option Text) → List Cell → Prop
  /-- No cells. -/
  | nil : Refilled s [] [] [] []
  /-- A cell and those behind it. -/
  | cons {c : Cell} {b : Block} {content? : Option Text} {region : List Lexeme} {cells cells' : List Cell}
      {bs : List Block} {cs : List (Option Text)}
      (htext : textOf s region = b.rewritten [Text.space] content?)
      (hrest : Refilled s cells bs cs cells') :
      Refilled s (c :: cells) (b :: bs) (content? :: cs) ({ c with region } :: cells')

/-- **Regeneration gives every cell a new region.** -/
theorem Celled.patch_eq {s : Settings} {x y t tail : Text} {cells cells' : List Cell}
    {bs : List Block} {cs : List (Option Text)} (h : Celled s (x ++ y) cells bs)
    (ht : t = x ++ y ++ textOf s (cells.flatMap Cell.lexemes) ++ tail)
    (hrefilled : Refilled s cells bs cs cells') :
    t.patch x.length (List.zipWith (Block.patched false) bs cs)
      = y ++ textOf s (cells'.flatMap Cell.lexemes) ++ tail := by
  induction hrefilled generalizing x y with
  | nil =>
    rw [List.zipWith_nil_left, Text.patch, ht]
    simp
  | @cons c b content? region cells cells' bs cs htext _ ih =>
    obtain _ | ⟨hholds, hrest⟩ := h
    rw [List.zipWith_cons_cons, Block.patched, if_neg (by simp), Text.patch]
    have hnext := @ih (x ++ y ++ textOf s (c.head ++ c.region)) (textOf s c.foot)
      (by simpa [Cell.lexemes] using hrest) (by rw [ht]; simp [Cell.lexemes])
    dsimp only
    rw [hholds.openStop, hholds.endStart, hnext, ← htext]
    have hextract : t.extract x.length (x ++ y ++ textOf s c.head).length = y ++ textOf s c.head := by
      have hx := Text.extract_append x (y ++ textOf s c.head)
        (textOf s (c.region ++ c.foot ++ cells.flatMap Cell.lexemes) ++ tail)
      rw [← hx, ht]
      simp [Cell.lexemes]
    rw [hextract]
    simp [Cell.lexemes, Cell.head, Cell.foot]

/-! ## Cutting a document -/

namespace Lexeme

variable {s : Settings}

/-- The bytes in front of the first marker can be cut anywhere. -/
theorem exists_front {before after front rest : Text} {ls : List Lexeme} {ms : List Marker}
    (hread : markersFrom s before ls after = some ms) (htext : textOf s ls = front ++ rest)
    (hmarkers : ∀ m ∈ ms, (before ++ front).length ≤ m.openAt) :
    ∃ ls', ls = ofText front ++ ls' ∧ textOf s ls' = rest := by
  induction front generalizing before ls with
  | nil => exact ⟨ls, rfl, htext⟩
  | cons b front ih =>
    cases ls with
    | nil => cases htext
    | cons l ls =>
      cases l with
      | byte b' =>
        have hcons : b' :: textOf s ls = b :: (front ++ rest) := htext
        obtain ⟨rfl, hfront⟩ := List.cons_eq_cons.1 hcons
        obtain ⟨ls', rfl, hrest⟩ := @ih (before ++ [b']) _ hread hfront (by simpa using hmarkers)
        exact ⟨ls', rfl, hrest⟩
      | marker f raw =>
        obtain ⟨m, ms', hm, -, rfl⟩ := markersFrom_marker.1 hread
        have hle := hmarkers m (by simp)
        rw [(closeEnd_of_read? hm).1, List.length_append, List.length_cons] at hle
        omega

/-- The bytes behind the last marker can be cut anywhere. -/
theorem exists_back {before after rest back : Text} {ls : List Lexeme} {ms : List Marker}
    (hread : markersFrom s before ls after = some ms) (htext : textOf s ls = rest ++ back)
    (hmarkers : ∀ m ∈ ms, m.closeEnd ≤ (before ++ rest).length) :
    ∃ ls', ls = ls' ++ ofText back ∧ textOf s ls' = rest := by
  induction back using List.reverseRecOn generalizing ls after with
  | nil => exact ⟨ls, by simp, by simpa using htext⟩
  | append_singleton back b ih =>
    rcases List.eq_nil_or_concat ls with rfl | ⟨ls, l, rfl⟩
    · simp at htext
    · rw [List.concat_eq_append] at hread htext ⊢
      obtain ⟨ms₁, ms₂, h₁, h₂, rfl⟩ := markersFrom_append.1 hread
      cases l with
      | byte b' =>
        cases h₂
        rw [textOf_append, ← List.append_assoc] at htext
        obtain ⟨hback, hb⟩ := List.append_inj' htext rfl
        obtain rfl : b' = b := by simpa using hb
        obtain ⟨ls', rfl, hrest⟩ := ih (by simpa using h₁) hback
        exact ⟨ls', by simp, hrest⟩
      | marker f raw =>
        obtain ⟨m, ms', hm, -, rfl⟩ := markersFrom_marker.1 h₂
        have hle := hmarkers m (by simp)
        have hlen := congrArg List.length htext
        rw [(closeEnd_of_read? hm).2] at hle
        simp only [textOf_append, textOf_cons, textOf_nil, List.append_nil, List.length_append,
          List.length_cons, List.length_nil] at hle hlen
        omega

/-- **The text between two markers is cut into its parts** if the markers inside it stand in the
region. -/
theorem exists_region {before after front region back : Text} {ls : List Lexeme}
    {ms : List Marker} (hread : markersFrom s before ls after = some ms)
    (htext : textOf s ls = front ++ region ++ back)
    (hmarkers : ∀ m ∈ ms, (before ++ front).length ≤ m.openAt ∧
      m.closeEnd ≤ (before ++ front ++ region).length) :
    ∃ ls', ls = ofText front ++ ls' ++ ofText back ∧ textOf s ls' = region := by
  obtain ⟨ls', rfl, hrest⟩ := exists_front hread (by rwa [List.append_assoc] at htext)
    fun m hm => (hmarkers m hm).1
  rw [markersFrom_ofText_append] at hread
  obtain ⟨ls'', rfl, hregion⟩ := exists_back hread hrest fun m hm => (hmarkers m hm).2
  exact ⟨ls'', by simp, hregion⟩

end Lexeme

/-- An inline block is on one line up to its first inner marker and behind its last one. -/
theorem Encloses.line {t x y z front region back : Text} {depth : Nat} {b : Block}
    {inner : List Mark} (h : Encloses t depth b inner) (hinline : b.isInline)
    (ht : t = x ++ y ++ z) (hy : y = front ++ region ++ back) (hopening : b.opening.closeEnd = x.length)
    (hending : b.ending.openAt = (x ++ y).length)
    (hmarkers : ∀ m ∈ inner.map Mark.marker, (x ++ front).length ≤ m.openAt ∧
      m.closeEnd ≤ (x ++ front ++ region).length) : Text.newline ∉ front ++ back := by
  obtain ⟨q, hinside, hclose, -⟩ := h.layout
  have hfront := Text.extract_append x front (region ++ back ++ z)
  have hback := Text.extract_append (x ++ front ++ region) back z
  rw [← List.length_append] at hfront hback
  have hends : (x ++ front).length ≤ b.ending.openAt := by
    rw [hending, hy]
    simp
  rw [hinline] at hinside hclose
  rw [List.mem_append, not_or]
  constructor
  · intro hmem
    -- the marker behind the open marker is on its line
    obtain ⟨m, hline, hm⟩ : ∃ m, Pairing.onSameLine t b.opening m = true ∧
        (x ++ front).length ≤ m.openAt := by
      cases hinside with
      | nil => exact ⟨_, hclose, hends⟩
      | block _ _ _ hline _ _ _ _ _ _ => exact ⟨_, hline, (hmarkers _ (by simp [Mark.marker])).1⟩
    rw [← hfront, show x ++ front ++ (region ++ back ++ z) = t by rw [ht, hy]; simp] at hmem
    simp only [Pairing.onSameLine, decide_eq_true_eq] at hline
    exact hline (Text.mem_extract_mono hopening.le hm hmem)
  · intro hmem
    have hq : q.closeEnd ≤ (x ++ front ++ region).length := by
      rcases hinside.last_mem with rfl | hq
      · rw [hopening]
        simp
      · exact (hmarkers q hq).2
    rw [← hback, show x ++ front ++ region ++ back ++ z = t by rw [ht, hy]; simp] at hmem
    simp only [Pairing.onSameLine, decide_eq_true_eq] at hclose
    refine hclose (Text.mem_extract_mono hq ?_ hmem)
    rw [hending, hy]
    simp

/-- A block of whole lines has a line feed between its markers. -/
theorem Encloses.newline_mem {t x y z : Text} {depth : Nat} {b : Block} {inner : List Mark}
    (h : Encloses t depth b inner) (hlines : b.isInline = false) (ht : t = x ++ y ++ z)
    (hopening : b.opening.closeEnd = x.length) (hending : b.ending.openAt = (x ++ y).length)
    (hmarkers : ∀ m ∈ inner.map Mark.marker, x.length ≤ m.closeEnd) : Text.newline ∈ y := by
  obtain ⟨q, hinside, hclose, -⟩ := h.layout
  have hq : x.length ≤ q.closeEnd := by
    rcases hinside.last_mem with rfl | hq
    · exact hopening.ge
    · exact hmarkers q hq
  have hmem : Text.newline ∈ t.extract q.closeEnd b.ending.openAt := by
    rw [hlines] at hclose
    simpa [Pairing.onSameLine] using hclose
  have hmid := Text.extract_append x y z
  rw [← List.length_append, ← ht, ← hending] at hmid
  exact hmid ▸ Text.mem_extract_mono hq le_rfl hmem

/-- **No span of an outermost block holds a part of another marker.** It can happen otherwise, since
the span of an inline block reaches up to a space, and this may be a space inside a header. -/
def Mark.SpansApart (marks : List Mark) : Prop :=
  ∀ b ∈ blocks marks, b.depth = 1 → ∀ m ∈ marks, b.opening.closeEnd ≤ m.marker.openAt →
    m.marker.closeEnd ≤ b.ending.openAt →
    b.openSpan.stop ≤ m.marker.openAt ∧ m.marker.closeEnd ≤ b.endSpan.start

instance (marks : List Mark) : Decidable (Mark.SpansApart marks) :=
  inferInstanceAs (Decidable (∀ b ∈ Mark.blocks marks, b.depth = 1 → ∀ m ∈ marks, _ → _ → _))

/-- **The marks of cells**: each cell holds a block, and its region the marks inside the block. -/
inductive Cut (s : Settings) (t : Text) :
    (pre : Text) → (previous? : Option Block) → List Cell → List Mark → Prop
  /-- No cells. -/
  | nil {pre : Text} {previous? : Option Block} : Cut s t pre previous? [] []
  /-- A cell and those behind it. -/
  | cons {pre : Text} {previous? : Option Block} {c : Cell} {b : Block} {cells : List Cell}
      {inner rest : List Mark} (hholds : c.Holds s pre b)
      (hread : markersFrom s (pre ++ textOf s c.head) c.region [] = some (inner.map Mark.marker))
      (henclosed : Encloses t 1 b inner)
      (hfits : ∀ a ∈ previous?, Pairing.onSameLine t a.ending b.opening → a.isInline ∧ b.isInline)
      (hrest : Cut s t (pre ++ textOf s c.lexemes) (some b) cells rest) :
      Cut s t pre previous? (c :: cells) (.opening b :: (inner ++ .ending b :: rest))

namespace Cut

variable {s : Settings} {t pre : Text} {previous? : Option Block} {cells : List Cell}
  {marks : List Mark}

/-- The cells are those of the outermost blocks. -/
theorem celled (h : Cut s t pre previous? cells marks) :
    Celled s pre cells (Mark.outermost marks) := by
  induction h with
  | nil => exact .nil
  | cons hholds _ henclosed _ _ ih =>
    rw [Mark.outermost_block henclosed]
    exact .cons hholds ih

/-- The marks are well arranged. -/
theorem outermost (h : Cut s t pre previous? cells marks) : Outermost t previous? marks := by
  induction h with
  | nil => exact .nil
  | cons _ _ henclosed hfits _ ih => exact .block henclosed hfits ih

/-- The markers of the marks are read where the cells have them. -/
theorem markersFrom (h : Cut s t pre previous? cells marks)
    (hopener : ∀ f, Text.newline ∉ (s.tokens f).opener) (hcloser : ∀ f, (s.tokens f).closer ≠ [])
    (tail : Text) : Lexeme.markersFrom s pre (cells.flatMap Cell.lexemes ++ ofText tail) []
      = some (marks.map Mark.marker) := by
  induction h with
  | nil => simp
  | @cons pre previous? c b cells inner rest hholds hread _ _ _ ih =>
    have hfoot : Lexeme.markersFrom s (pre ++ textOf s (c.head ++ c.region))
        (c.foot ++ (cells.flatMap Cell.lexemes ++ ofText tail)) []
          = some (b.ending :: rest.map Mark.marker) := by
      rw [Cell.foot, List.append_assoc, Lexeme.markersFrom_ofText_append]
      refine Lexeme.markersFrom_marker.2 ⟨b.ending, _, ?_, ?_, rfl⟩
      · rw [Lexeme.read?_congr_after (hopener _) (hcloser _), hholds.ending]
      · simpa [Cell.lexemes, Cell.foot] using ih
    have hregion : Lexeme.markersFrom s (pre ++ textOf s c.head)
        (c.region ++ (c.foot ++ (cells.flatMap Cell.lexemes ++ ofText tail))) []
          = some (inner.map Mark.marker ++ b.ending :: rest.map Mark.marker) := by
      refine Lexeme.markersFrom_append.2 ⟨_, _, ?_, ?_, rfl⟩
      · rw [Lexeme.markersFrom_congr_after hopener hcloser, hread]
      · simpa using hfoot
    have hlexemes : (c :: cells).flatMap Cell.lexemes ++ ofText tail
        = ofText c.gap ++ .marker c.openFamily c.openRaw :: (ofText c.front ++
          (c.region ++ (c.foot ++ (cells.flatMap Cell.lexemes ++ ofText tail)))) := by
      simp [Cell.lexemes, Cell.head]
    rw [hlexemes, Lexeme.markersFrom_ofText_append]
    refine Lexeme.markersFrom_marker.2 ⟨b.opening, _, ?_, ?_, rfl⟩
    · rw [Lexeme.read?_congr_after (hopener _) (hcloser _), hholds.opening]
    · rw [Lexeme.markersFrom_ofText_append]
      simpa [Cell.head, Mark.marker] using hregion

end Cut

/-- **A block that is read is in a cell**: what is between its markers falls into front, region and back,
if no span of the block holds a part of a marker inside it. -/
theorem Encloses.exists_holds {s : Settings} {t pre gap raw raw' after after' after'' z : Text}
    {f f' : Family} {inside : List Lexeme} {b : Block} {inner : List Mark}
    (hopener : ∀ f, Text.newline ∉ (s.tokens f).opener) (hcloser : ∀ f, (s.tokens f).closer ≠ [])
    (h : Encloses t 1 b inner) (hopening : read? s (pre ++ gap) f raw after = some b.opening)
    (hread : markersFrom s (pre ++ gap ++ text s (.marker f raw)) inside after'
      = some (inner.map Mark.marker))
    (hending : read? s (pre ++ gap ++ text s (.marker f raw) ++ textOf s inside) f' raw' after''
      = some b.ending)
    (ht : t = pre ++ gap ++ text s (.marker f raw) ++ textOf s inside ++ z)
    (hapart : ∀ m ∈ inner.map Mark.marker, b.opening.closeEnd ≤ m.openAt →
      m.closeEnd ≤ b.ending.openAt → b.openSpan.stop ≤ m.openAt ∧ m.closeEnd ≤ b.endSpan.start) :
    ∃ front region back, inside = ofText front ++ region ++ ofText back ∧
      Cell.Holds s pre ⟨gap, f, raw, front, region, back, f', raw'⟩ b ∧
      markersFrom s (pre ++ textOf s (Cell.head ⟨gap, f, raw, front, region, back, f', raw'⟩)) region []
        = some (inner.map Mark.marker) := by
  obtain ⟨-, hopenEnd⟩ := Lexeme.closeEnd_of_read? hopening
  obtain ⟨hendAt, -⟩ := Lexeme.closeEnd_of_read? hending
  obtain ⟨hstands, -⟩ := Lexeme.stands_of_markersFrom hread
  set start := pre ++ gap ++ text s (.marker f raw) with hstart
  have hnewline : b.isInline = false → Text.newline ∈ textOf s inside := by
    refine fun hlines => h.newline_mem hlines ht hopenEnd hendAt fun m hm => ?_
    obtain ⟨hm, hle, -⟩ := hstands m hm
    exact hle.trans hm.openAt_le
  obtain ⟨front, region, back, body, hparts, hparted⟩ := exists_parted b.isInline hnewline
  have hencases : b.Encases start front region back body := by
    have hencases := hparted.encases z 1 hopenEnd (show b.ending.openAt = _ by rw [hendAt, hparts])
      (by rw [Lexeme.lead_of_read? hending, hparts])
    rwa [← hparts, ← ht, ← h.formed] at hencases
  have hmarkers : ∀ m ∈ inner.map Mark.marker, (start ++ front).length ≤ m.openAt ∧
      m.closeEnd ≤ (start ++ front ++ region).length := by
    intro m hm
    obtain ⟨-, hle, hend⟩ := hstands m hm
    rw [← hencases.openStop, ← hencases.endStart]
    exact hapart m hm (by rwa [hopenEnd]) (by rwa [hendAt])
  obtain ⟨region, rfl, rfl⟩ := Lexeme.exists_region hread hparts hmarkers
  refine ⟨front, region, back, rfl, ⟨?_, ?_, ?_, fun hinline => ?_, ?_, ?_⟩, ?_⟩
  · rw [Lexeme.read?_congr_after (hopener f) (hcloser f), hopening]
  · rw [Lexeme.read?_congr_after (hopener f') (hcloser f') [] after'', ← hending, hstart]
    simp [Cell.head]
  · rw [hencases.body]
    exact hparted
  · exact h.line hinline ht hparts hopenEnd hendAt hmarkers
  · rw [hencases.openStop, hstart]
    simp [Cell.head]
  · rw [hencases.endStart, hstart]
    simp [Cell.head]
  · rw [List.append_assoc, Lexeme.markersFrom_ofText_append] at hread
    obtain ⟨ms₁, ms₂, h₁, h₂, hms⟩ := Lexeme.markersFrom_append.1 hread
    obtain rfl : ms₂ = [] := by simpa using h₂.symm
    have hhead : pre ++ textOf s (Cell.head ⟨gap, f, raw, front, region, back, f', raw'⟩)
        = start ++ front := by
      rw [hstart]
      simp [Cell.head]
    rw [hms, List.append_nil, ← h₁, hhead]
    exact Lexeme.markersFrom_congr_after hopener hcloser ..

/-- **A document is cut into cells** if no span holds a part of another marker. -/
theorem exists_cut {s : Settings} {t pre : Text} {ls : List Lexeme} {marks : List Mark}
    {previous? : Option Block} (hopener : ∀ f, Text.newline ∉ (s.tokens f).opener)
    (hcloser : ∀ f, (s.tokens f).closer ≠ []) (houter : Outermost t previous? marks)
    (ht : t = pre ++ textOf s ls) (hread : markersFrom s pre ls [] = some (marks.map Mark.marker))
    (hapart : Mark.SpansApart marks) :
    ∃ cells tail, ls = cells.flatMap Cell.lexemes ++ ofText tail ∧
      Cut s t pre previous? cells marks := by
  induction houter generalizing pre ls with
  | nil =>
    obtain ⟨tail, rfl⟩ := Lexeme.eq_ofText_of_markersFrom hread
    exact ⟨[], tail, rfl, .nil⟩
  | @block previous? b inner rest henclosed hfits hrest ih =>
    -- the lexemes of the block: its open marker, those inside, its end marker
    have hmap : (Mark.opening b :: (inner ++ .ending b :: rest)).map Mark.marker
        = [] ++ b.opening :: (inner.map Mark.marker ++ b.ending :: rest.map Mark.marker) := by
      simp [Mark.marker]
    rw [hmap] at hread
    obtain ⟨ls₀, f, raw, ls₁, rfl, hgap, hopening, hread₁⟩ :=
      Lexeme.exists_marker_of_markersFrom hread
    obtain ⟨gap, rfl⟩ := Lexeme.eq_ofText_of_markersFrom hgap
    obtain ⟨inside, f', raw', ls₂, rfl, hreadInside, hending, hread₂⟩ :=
      Lexeme.exists_marker_of_markersFrom hread₁
    rw [Lexeme.textOf_ofText] at hopening hreadInside hending hread₂
    have hdepth : b.depth = 1 := by rw [henclosed.formed, Block.ofMarkers_depth]
    have htext : t = pre ++ gap ++ text s (.marker f raw) ++ textOf s inside
        ++ textOf s (.marker f' raw' :: ls₂) := by
      rw [ht]
      simp
    obtain ⟨front, region, back, rfl, hholds, hregion⟩ := henclosed.exists_holds hopener hcloser hopening
      hreadInside hending htext fun m hm => by
        obtain ⟨mark, hmark, rfl⟩ := List.mem_map.1 hm
        exact hapart b (by simp) hdepth mark (by simp [hmark])
    obtain ⟨cells, tail, rfl, hcut⟩ := ih (by rw [htext]; simp) hread₂
      fun b' hb' hdepth' m hm => hapart b' (by simp [hb']) hdepth' m (by simp [hm])
    refine ⟨⟨gap, f, raw, front, region, back, f', raw'⟩ :: cells, tail, ?_,
      .cons hholds hregion henclosed hfits ?_⟩
    · simp [Cell.lexemes, Cell.head, Cell.foot]
    · simpa [Cell.lexemes, Cell.head, Cell.foot] using hcut

end Regen
