import Regen.Proofs.CheckedPairing

/-!
# Checked bodies and snippets

The spans of a block lie between characters, and so its body is written in characters (`Block.cut_ofMarkers`): each of
their ends is that of a marker or of a line, or it is next to a space. Taking the indentation off a body cuts each line
behind spaces and tabs, and the indentation of a marker consists of them, so that these cuts are between characters
wherever they fall. The lines around a block are found by steps from one line feed to the next, each of which stays
inside of the text (`Checked.snippet_of_cut`).
-/

namespace Regen

open Text (newline space tab isIndent)

/-! ## Blocks between characters -/

/-- **A block whose spans lie between characters.** -/
structure Block.Cut (t : Text) (b : Block) : Prop where
  /-- What is written back for its open marker starts between characters. -/
  openStart : t.isCharStart b.openSpan.start = true
  /-- And it stops between characters. -/
  openStop : t.isCharStart b.openSpan.stop = true
  /-- What is written back for its end marker starts between characters. -/
  endStart : t.isCharStart b.endSpan.start = true
  /-- And it stops between characters. -/
  endStop : t.isCharStart b.endSpan.stop = true
  /-- Its body is written in characters. -/
  body : b.body.Encoded

section

variable {t : Text} {o e : Marker} (ht : t.Encoded) (ho : o.Placed t) (he : e.Placed t)
include ht ho he

/-- **The spans of a block of two placed markers** lie between characters. -/
theorem Block.cut_ofMarkers (depth : Nat) (isInline : Bool) : (ofMarkers t o e depth isInline).Cut t := by
  have hspace : space < 0x80 := by decide
  cases isInline with
  | true =>
    rw [ofMarkers, if_pos rfl, inlineOf]
    split
    next => exact ⟨ho.openAt, ho.closeEnd, he.openAt, he.closeEnd, ht.extract ho.closeEnd he.openAt⟩
    next first hfirst =>
      have hopenStop := Text.isCharStart_of_byteIn? hspace hfirst
      have hbody := ht.isCharStart_succ_of_byteIn? hspace hfirst
      split
      next => exact ⟨ho.openAt, hopenStop, he.openAt, he.closeEnd, ht.extract hbody he.openAt⟩
      next last hlast =>
        exact ⟨ho.openAt, hopenStop, ht.isCharStart_succ_of_lastByteIn? hspace hlast, he.closeEnd,
          ht.extract hbody (Text.isCharStart_of_lastByteIn? hspace hlast)⟩
  | false =>
    rw [ofMarkers, if_neg Bool.false_ne_true, linesOf]
    have hopen : t.isCharStart o.lineStart = true := by
      rw [(Checked.lineStart_of_lead ho.lead (Text.le_length_of_isCharStart ho.openAt)).2.2]
      exact ht.isCharStart_lineStart _
    have hend : t.isCharStart e.lineStart = true := by
      rw [(Checked.lineStart_of_lead he.lead (Text.le_length_of_isCharStart he.openAt)).2.2]
      exact ht.isCharStart_lineStart _
    have hbody := ht.isCharStart_lineStop o.closeEnd
    refine ⟨hopen, hbody, hend, ht.isCharStart_lineStop _, ?_⟩
    dsimp only
    split
    next i hlast =>
      split
      · exact ht.extract hbody (Text.isCharStart_of_lastByteIn? (by decide) hlast)
      · exact .nil
    next => exact .nil

end

namespace Text

/-- **Lines are written in characters** if their text is, and the other way round. -/
theorem encoded_ofLines_iff {ls : List Text} : (ofLines ls).Encoded ↔ ∀ l ∈ ls, l.Encoded := by
  induction ls with
  | nil => simp [ofLines, Encoded.nil]
  | cons line ls ih =>
    cases ls with
    | nil => simp
    | cons next ls =>
      have hnewline : newline < 0x80 := by decide
      rw [ofLines_cons line (List.cons_ne_nil next ls), List.forall_mem_cons, ← ih]
      constructor
      · exact fun h => h.of_cons hnewline
      · exact fun h => h.1.append ((Encoded.singleton hnewline).append h.2)

end Text

namespace Checked

/-! ## Content -/

/-- The lines of a text, each with the line feed at its end. The last one has none, and there is no such line behind a
line feed at the end of the text. -/
def pieces : List Text → List Text
  | [] => []
  | [last] => if last.isEmpty then [] else [last]
  | line :: next :: more => (line ++ [newline]) :: pieces (next :: more)

/-- Takes up to a number of leading spaces and tabs off a line. -/
def dedentPiece (column : Nat) (piece : Text) : Option Text :=
  let content := Run.dropFinalNewline piece
  let width := ((content.take column).takeWhile isIndent).length
  slice piece width piece.length

/-- Takes them off all lines. -/
def dedentPieces (column : Nat) : List Text → Option Text
  | [] => some []
  | piece :: more => do
    let piece ← dedentPiece column piece
    let more ← dedentPieces column more
    return piece ++ more

/-- Takes up to a number of leading spaces and tabs off every line of a text. -/
def dedent (column : Nat) (t : Text) : Option Text := dedentPieces column (pieces (Text.lines t))

/-- The body of a block without its indentation. -/
def content (b : Block) : Option (Option Text) :=
  if b.body.isEmpty then return none
  else if b.isInline then return some b.body
  else do
    let body ← dedent b.opening.bodyColumn b.body
    return some body

/-- What is written in front of every line of the body of a marker. -/
def bodyIndent (m : Marker) : Option Text := slice m.margin 0 (min m.bodyColumn m.margin.length)

/-- What is taken off a line is written in ASCII, and so the rest of it begins with a character. -/
theorem exists_dedentLine {line : Text} (hline : line.Encoded) (column : Nat) :
    ∃ front, line = front ++ Text.dedentLine column line ∧ front.Encoded ∧ (Text.dedentLine column line).Encoded ∧
      front.length = ((line.take column).takeWhile isIndent).length := by
  obtain ⟨back, hback⟩ : (line.take column).takeWhile isIndent <+: line :=
    (List.takeWhile_prefix isIndent).trans (List.take_prefix column line)
  have hrest : Text.dedentLine column line = back := by
    rw [Text.dedentLine]
    nth_rewrite 2 [← hback]
    rw [List.drop_left]
  have hfront : Text.Encoded ((line.take column).takeWhile isIndent) := by
    refine .of_ascii fun b hb => ?_
    rcases Text.isIndent_iff.1 (List.mem_takeWhile_imp hb) with rfl | rfl <;> decide
  have hparts := hline
  rw [← hback] at hparts
  exact ⟨_, by rw [hrest, hback], hfront, hrest ▸ hparts.of_append hfront, rfl⟩

/-- **A line loses its indentation** without an access that is out of range, with what ends it or without. -/
theorem dedentPiece_eq {line ending : Text} (hline : line.Encoded) (hending : ending.Encoded)
    (hcontent : Run.dropFinalNewline (line ++ ending) = line) (column : Nat) :
    dedentPiece column (line ++ ending) = some (Text.dedentLine column line ++ ending) := by
  obtain ⟨front, hsplit, hfront, hrest, hlength⟩ := exists_dedentLine hline column
  rw [dedentPiece, hcontent, ← hlength]
  have hpiece : line ++ ending = front ++ (Text.dedentLine column line ++ ending) := by
    rw [← List.append_assoc, ← hsplit]
  have hstart := (hfront.append (hrest.append hending)).isCharStart_iff.2 ⟨hfront, hrest.append hending⟩
  rw [hpiece, slice_eq hstart (Text.isCharStart_length _) (by simp)]
  simp [List.extract_eq_take_drop]

/-- **Taking the indentation off a text is never out of range.** -/
theorem dedent_eq {t : Text} (ht : t.Encoded) (column : Nat) : dedent column t = some (Text.dedent column t) := by
  have hnewline : Text.Encoded [newline] := .singleton (by decide)
  rw [dedent, Text.dedent]
  induction t using Text.line_induction with
  | last line hno =>
    rw [Text.lines_of_notMem hno, List.map_singleton, Text.ofLines_singleton]
    cases line with
    | nil => simp [pieces, dedentPieces, Text.dedentLine]
    | cons b line =>
      have hcontent : Run.dropFinalNewline (b :: line ++ []) = b :: line := by
        rw [List.append_nil, Run.dropFinalNewline, if_neg]
        exact fun hlast => hno (List.mem_of_getLast? hlast)
      have hpiece := dedentPiece_eq ht .nil hcontent column
      rw [List.append_nil, List.append_nil] at hpiece
      simp [pieces, dedentPieces, hpiece]
  | more line rest hno ih =>
    obtain ⟨hline, hrest⟩ := ht.of_cons (by decide)
    obtain ⟨next, more, hlines⟩ := List.exists_cons_of_ne_nil (Text.lines_ne_nil rest)
    have hcontent : Run.dropFinalNewline (line ++ [newline]) = line := by simp [Run.dropFinalNewline]
    rw [Text.lines_append_newline hno, List.map_cons,
      Text.ofLines_cons _ (by simpa using Text.lines_ne_nil rest)]
    have hmore := ih hrest
    rw [hlines] at hmore ⊢
    simp [pieces, dedentPieces, dedentPiece_eq hline hnewline hcontent, hmore]

/-- A text without its indentation is written in characters. -/
theorem encoded_dedent {t : Text} (ht : t.Encoded) (column : Nat) : (Text.dedent column t).Encoded := by
  rw [Text.dedent, Text.encoded_ofLines_iff]
  rw [← Text.ofLines_lines t, Text.encoded_ofLines_iff] at ht
  intro l hl
  obtain ⟨line, hline, rfl⟩ := List.mem_map.1 hl
  obtain ⟨_, _, _, hrest, _⟩ := exists_dedentLine (ht line hline) column
  exact hrest

/-- **The content of a block** is what it is otherwise, and written in characters. -/
theorem content_eq {b : Block} (hbody : b.body.Encoded) :
    content b = some b.content ∧ ∀ x ∈ b.content, x.Encoded := by
  rw [content, Block.content]
  split
  next => exact ⟨rfl, by simp⟩
  split
  next => exact ⟨rfl, by simpa using hbody⟩
  next => exact ⟨by simp [dedent_eq hbody], by simpa using encoded_dedent hbody _⟩

/-- **The indentation of a body** lies inside of the margin. -/
theorem bodyIndent_eq (m : Marker) : bodyIndent m = some m.bodyIndent := by
  have hascii : ∀ b ∈ m.margin, b < 0x80 := by
    intro b hb
    obtain ⟨c, -, rfl⟩ := List.mem_map.1 hb
    split <;> decide
  have hmargin : Text.Encoded m.margin := .of_ascii hascii
  have hstop : Text.isCharStart m.margin (min m.bodyColumn m.margin.length) = true := by
    rcases Nat.lt_or_ge (min m.bodyColumn m.margin.length) m.margin.length with hlt | hge
    · exact Text.isCharStart_of_getElem? (hascii _ (List.getElem_mem hlt)) (List.getElem?_eq_getElem hlt)
    · rw [Nat.le_antisymm (Nat.min_le_right ..) hge]
      exact Text.isCharStart_length _
  rw [bodyIndent, slice_eq hmargin.isCharStart_zero hstop (Nat.zero_le _), extract_min_length, Marker.bodyIndent]
  rfl

/-! ## Snippets -/

/-- The start of a snippet, moved back over a number of lines. -/
def widenBack (t : Text) : (lines start : Nat) → Option Nat
  | 0, start => some start
  | lines + 1, start =>
    if start = 0 then some 0
    else do
      let last ← minus start 1
      let start ← lineStart t last
      widenBack t lines start

/-- The stop of a snippet, moved on over a number of lines. -/
def widenForward (t : Text) : (lines stop : Nat) → Option Nat
  | 0, stop => some stop
  | lines + 1, stop =>
    if t.length ≤ stop then some stop
    else do
      let next? ← findByte newline t (stop + 1) t.length
      widenForward t lines (next?.getD t.length)

/-- The stop of a snippet without the line feed in front of it, if there is one. -/
def unterminated (t : Text) (stop : Nat) : Option Nat :=
  if 0 < stop then do
    let last ← minus stop 1
    let b ← t[last]?
    return if b = newline then last else stop
  else some stop

/-- Where the lines of a block start and stop. -/
def wholeLines (t : Text) (b : Block) : Option Span :=
  if b.isInline then do
    let start ← lineStart t b.openSpan.start
    let stop ← lineStop t b.endSpan.stop
    return ⟨start, stop⟩
  else some ⟨b.openSpan.start, b.endSpan.stop⟩

/-- The lines of a block with some of the lines around it, without the last line feed. -/
def snippet (t : Text) (b : Block) (before after : Nat) : Option Text := do
  let ⟨start, stop⟩ ← wholeLines t b
  let start ← widenBack t before start
  let stop ← widenForward t after stop
  let stop ← unterminated t stop
  span t start stop

section

variable {t : Text} (ht : t.Encoded)
include ht

theorem widenBack_eq (lines : Nat) {start : Nat} (hstart : t.isCharStart start = true) :
    widenBack t lines start = some (Block.widenBack t lines start) ∧
      t.isCharStart (Block.widenBack t lines start) = true := by
  induction lines generalizing start with
  | zero => exact ⟨rfl, hstart⟩
  | succ lines ih =>
    rw [widenBack, Block.widenBack]
    split
    next => exact ⟨rfl, ht.isCharStart_zero⟩
    next hpos =>
      rw [minus_eq (Nat.one_le_iff_ne_zero.2 hpos)]
      simpa using ih (ht.isCharStart_lineStart (start - 1))

omit ht in
theorem widenForward_eq (lines : Nat) {stop : Nat} (hstop : t.isCharStart stop = true) :
    widenForward t lines stop = some (Block.widenForward t lines stop) ∧
      t.isCharStart (Block.widenForward t lines stop) = true := by
  induction lines generalizing stop with
  | zero => exact ⟨rfl, hstop⟩
  | succ lines ih =>
    rw [widenForward, Block.widenForward]
    split
    next => exact ⟨rfl, hstop⟩
    next =>
      simp only [findByte_eq, Option.bind_eq_bind, Option.bind_some]
      cases hnext : Text.byteIn? newline t (stop + 1) t.length with
      | none => exact ih t.isCharStart_length
      | some i => exact ih (Text.isCharStart_of_byteIn? (by decide) hnext)

omit ht in
/-- The line feed at the end of a snippet is left out. -/
theorem unterminated_eq {stop : Nat} (hstop : t.isCharStart stop = true) :
    ∃ last, unterminated t stop = some last ∧ t.isCharStart last = true ∧
      last = if stop ≠ 0 && t[stop - 1]? == some newline then stop - 1 else stop := by
  rw [unterminated]
  split
  next hpos =>
    have hlt : stop - 1 < t.length := by
      have := Text.le_length_of_isCharStart hstop
      omega
    have hbyte : t[stop - 1]? = some t[stop - 1] := List.getElem?_eq_getElem hlt
    simp only [minus_eq hpos, Option.bind_eq_bind, Option.bind_some, hbyte]
    refine ⟨_, rfl, ?_, ?_⟩
    · split
      next hnewline => exact Text.isCharStart_of_getElem? (by decide) (hnewline ▸ hbyte)
      next => exact hstop
    · simp [hpos.ne']
  next hzero =>
    obtain rfl : stop = 0 := by omega
    exact ⟨0, rfl, hstop, rfl⟩

/-- **The snippet of a block is never out of range**, whatever lines around it are asked for. -/
theorem snippet_of_cut {b : Block} (hb : b.Cut t) (before after : Nat) :
    snippet t b before after = some (b.snippet t before after) := by
  have hstart : t.isCharStart (if b.isInline then Text.lineStart t b.openSpan.start else b.openSpan.start) = true := by
    split
    · exact ht.isCharStart_lineStart _
    · exact hb.openStart
  have hstop : t.isCharStart (if b.isInline then Text.lineStop t b.endSpan.stop else b.endSpan.stop) = true := by
    split
    · exact ht.isCharStart_lineStop _
    · exact hb.endStop
  have hlines : wholeLines t b = some
      ⟨if b.isInline then Text.lineStart t b.openSpan.start else b.openSpan.start,
        if b.isInline then Text.lineStop t b.endSpan.stop else b.endSpan.stop⟩ := by
    rw [wholeLines]
    split <;> simp
  rw [snippet, hlines, Block.snippet]
  generalize (if b.isInline then Text.lineStart t b.openSpan.start else b.openSpan.start) = start at hstart ⊢
  generalize (if b.isInline then Text.lineStop t b.endSpan.stop else b.endSpan.stop) = stop at hstop ⊢
  obtain ⟨hback, hfirst⟩ := widenBack_eq ht before hstart
  obtain ⟨hforward, hlast⟩ := widenForward_eq after hstop
  obtain ⟨last, hfound, hcut, hof⟩ := unterminated_eq hlast
  simp only [hback, hforward, hfound, span_eq_extract hfirst hcut, Option.bind_eq_bind, Option.bind_some]
  rw [hof]
  split <;> rfl

end

end Checked

end Regen
