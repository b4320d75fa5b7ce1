import Regen.Proofs.Checked
import Regen.Proofs.Leftmost

/-!
# Checked scanning

To find the markers of a text with checked access takes a lot of arithmetic with offsets. The indentation in front of an
opener is measured by going back from it byte by byte, once over the blanks and once over the word in front of them
(`Checked.margins_eq`). The lines of a header are found by their line feeds, and each of them is compared with the
margin offset by offset before it is cut off at the column of the opener. That column counts bytes, so it can lie behind
the end of a short line, or inside a character of a line whose comment is not that of the first one. In the first case
the comparison fails, or nothing is left of the line; in the second the cut is moved on (`Checked.furtherLines_eq`).

Tokens of one family can hold line feeds and the tokens of the other one. What matters is that they are written in
characters and not empty, and so they stand between characters (`Text.Encoded.isCharStart_of_standsAt`), and that they
are found one behind the other (`Marker.AllPlaced`), so that the gaps in which edits are looked for have their ends in
order.
-/

namespace Regen.Checked

open Text (newline space tab isBlank)

/-! ## Computations that are checked and may fail -/

/-- A computation with checked access that may fail for the reasons for which the unchecked one does. -/
abbrev Guarded := ExceptT Failure Option

/-- A computation that has an outcome. -/
def answered {α : Type} (x : Outcome α) : Guarded α := ExceptT.mk (some x)

/-- Fails with a problem at a place, if that can be located. -/
def failAt {α : Type} (problem : Problem) (place : Option Location) : Guarded α := do
  let place ← place
  answered (Regen.failAt problem place)

section

variable {α β : Type}

@[simp] theorem answered_ok_bind (a : α) (f : α → Guarded β) : answered (.ok a) >>= f = f a := rfl

@[simp] theorem lift_some_bind (a : α) (f : α → Guarded β) : (liftM (some a) : Guarded α) >>= f = f a := rfl

/-- **One computation after the other** has an outcome if both have. -/
theorem answered_bind_eq {x : Outcome α} {f : α → Outcome β} {g : α → Guarded β}
    (h : ∀ a, x = .ok a → g a = answered (f a)) : answered x >>= g = answered (x >>= f) := by
  cases x with
  | ok a => exact h a rfl
  | error e => rfl

@[simp] theorem failAt_some (problem : Problem) (place : Location) :
    (failAt problem (some place) : Guarded α) = answered (Regen.failAt problem place) := rfl

end

/-! ## Indentation -/

/-- What the line of an opener tells of the indentation. -/
structure Indentation where
  /-- What stands in front of the opener on its line. -/
  lead : Text
  /-- Where the line starts. -/
  lineStart : Nat
  /-- The column of the opener. -/
  column : Nat
  /-- The width of the comment in front of the opener. -/
  commentColumn : Nat
  /-- The column to which the body is indented. -/
  bodyColumn : Nat

/-- The last place between two offsets at which a byte is not to be skipped, looked for step by step from behind. -/
def lastPlace (skip : UInt8 → Bool) (t : Text) (start : Nat) : (stop : Nat) → Option (Option Nat)
  | 0 => some none
  | i + 1 =>
    if start < i + 1 then do
      let b ← t[i]?
      if skip b then lastPlace skip t start i else return some i
    else some none

/-- The offsets at which the comment in front of an opener ends and to which the body is indented. -/
def margins (t : Text) (k : Tokens) (start openAt : Nat) : Option (Nat × Nat) := do
  match ← lastPlace isBlank t start openAt with
  | none => return (start, openAt)
  | some i =>
    if k.asComment then return (i + 1, openAt)
    else
      match ← lastPlace (!isBlank ·) t start i with
      | some j => return (i + 1, j + 1)
      | none => return (i + 1, start)

/-- The indentation at an opener. -/
def indentation (t : Text) (k : Tokens) (openAt : Nat) : Option Indentation := do
  let start ← lineStart t openAt
  let (commentStop, bodyStart) ← margins t k start openAt
  let column ← minus openAt start
  let commentColumn ← minus commentStop start
  let bodyColumn ← minus bodyStart start
  let lead ← bytes t start openAt
  return { lead, lineStart := start, column, commentColumn, bodyColumn }

/-- The indentation as a marker has it. -/
def Indentation.of (m : Marker) : Indentation :=
  { lead := m.lead, lineStart := m.lineStart, column := m.column, commentColumn := m.commentColumn
    bodyColumn := m.bodyColumn }

/-- A stretch goes on by one byte. -/
theorem extract_succ {t : Text} {start i : Nat} {b : UInt8} (h : start ≤ i) (hi : t[i]? = some b) :
    t.extract start (i + 1) = t.extract start i ++ [b] := by
  have hbyte : (t.drop start)[i - start]? = some b := by
    rw [List.getElem?_drop, Nat.add_sub_cancel' h]
    exact hi
  rw [List.extract_eq_take_drop, List.extract_eq_take_drop, show i + 1 - start = i - start + 1 by omega,
    List.take_add_one, hbyte]
  rfl

/-- **Going back step by step** skips the bytes at the end of a stretch. -/
theorem lastPlace_eq (skip : UInt8 → Bool) {t : Text} {start stop : Nat} (hle : start ≤ stop)
    (hstop : stop ≤ t.length) : ∃ place?, lastPlace skip t start stop = some place? ∧
      match place? with
      | none => (t.extract start stop).reverse.dropWhile skip = []
      | some i => start ≤ i ∧ i < stop ∧ (∃ b, t[i]? = some b ∧ skip b = false) ∧
        (t.extract start stop).reverse.dropWhile skip = (t.extract start (i + 1)).reverse := by
  induction stop with
  | zero => exact ⟨none, rfl, by simp⟩
  | succ i ih =>
    rw [lastPlace]
    split
    next hlt =>
      have hbyte : t[i]? = some t[i] := List.getElem?_eq_getElem hstop
      rw [hbyte, extract_succ (Nat.le_of_lt_succ hlt) hbyte, Option.bind_eq_bind, Option.bind_some,
        List.reverse_append, List.reverse_singleton, List.singleton_append]
      split
      next hskip =>
        obtain ⟨place?, hplace, hrest⟩ := ih (Nat.le_of_lt_succ hlt) (Nat.le_of_succ_le hstop)
        refine ⟨place?, hplace, ?_⟩
        rw [List.dropWhile_cons_of_pos hskip]
        cases place? with
        | none => exact hrest
        | some j => exact ⟨hrest.1, hrest.2.1.trans (Nat.lt_succ_self i), hrest.2.2⟩
      next hkeep =>
        refine ⟨some i, rfl, Nat.le_of_lt_succ hlt, Nat.lt_succ_self i, ⟨_, hbyte, by simpa using hkeep⟩, ?_⟩
        rw [List.dropWhile_cons_of_neg hkeep, extract_succ (Nat.le_of_lt_succ hlt) hbyte]
        simp
    next hge =>
      refine ⟨none, rfl, ?_⟩
      rw [extract_eq_nil (by omega)]
      rfl

/-- **The margins of a marker** are found by going back from its opener. -/
theorem margins_eq {t : Text} {m : Marker} {start : Nat} (hlead : m.lead = t.extract start m.openAt)
    (hle : start ≤ m.openAt) (hopen : m.openAt ≤ t.length) :
    margins t m.tokens start m.openAt = some (start + m.commentColumn, start + m.bodyColumn) := by
  have hcolumn : m.column = m.openAt - start := by rw [Marker.column, hlead, length_extract hopen]
  obtain ⟨place?, hplace, hrest⟩ := lastPlace_eq isBlank hle hopen
  rw [← hlead] at hrest
  rw [margins, hplace, Option.bind_eq_bind, Option.bind_some]
  cases place? with
  | none =>
    have hcomment : m.commentColumn = 0 := by rw [Marker.commentColumn, hrest]; rfl
    rw [Marker.bodyColumn, hcomment, hcolumn, if_pos (by simp), Nat.add_sub_cancel' hle]
    rfl
  | some i =>
    obtain ⟨hstart, hstop, ⟨b, hb, hkeep⟩, hskipped⟩ := hrest
    have hcomment : m.commentColumn = i + 1 - start := by
      rw [Marker.commentColumn, hskipped, List.length_reverse, length_extract (by omega)]
    rw [Marker.bodyColumn, hcomment, hcolumn]
    cases hword : m.tokens.asComment with
    | true =>
      rw [if_pos (by simp), Nat.add_sub_cancel' hle, Nat.add_sub_cancel' (by omega)]
      rfl
    | false =>
      obtain ⟨word?, hfound, hfront⟩ := lastPlace_eq (!isBlank ·) hstart (by omega : i ≤ t.length)
      have hskip : (m.lead.reverse.dropWhile isBlank).dropWhile (!isBlank ·)
          = (t.extract start i).reverse.dropWhile (!isBlank ·) := by
        rw [hskipped, extract_succ hstart hb, List.reverse_append, List.reverse_singleton,
          List.singleton_append, List.dropWhile_cons_of_pos (by simp [hkeep])]
      simp only [Bool.false_eq_true, if_false, hfound, hskip, Option.bind_some]
      rw [if_neg (by simp; omega), Nat.add_sub_cancel' (by omega)]
      cases word? with
      | none =>
        rw [hfront]
        rfl
      | some j =>
        rw [hfront.2.2.2, List.length_reverse, length_extract (by omega), Nat.add_sub_cancel' (by omega)]
        rfl

/-- A marker with what stands in front of it on its line knows the column of its opener and where the line starts. -/
theorem lineStart_of_lead {t : Text} {m : Marker} (hlead : m.lead = t.extract (Text.lineStart t m.openAt) m.openAt)
    (hopen : m.openAt ≤ t.length) : Text.lineStart t m.openAt ≤ m.openAt ∧
      m.column = m.openAt - Text.lineStart t m.openAt ∧ m.lineStart = Text.lineStart t m.openAt := by
  have hle : Text.lineStart t m.openAt ≤ m.openAt := by
    rw [Text.lineStart]
    split
    next h => exact (Text.lastByteIn?_bounds h).2
    next => exact Nat.zero_le _
  have hcolumn : m.column = m.openAt - Text.lineStart t m.openAt := by
    rw [Marker.column, hlead, length_extract hopen]
  refine ⟨hle, hcolumn, ?_⟩
  rw [Marker.lineStart, ← Marker.column, hcolumn]
  omega

/-- **The indentation at an opener** is that of the marker which stands there. -/
theorem indentation_eq {t : Text} {m : Marker} (hlead : m.lead = t.extract (Text.lineStart t m.openAt) m.openAt)
    (hopen : m.openAt ≤ t.length) : indentation t m.tokens m.openAt = some (.of m) := by
  obtain ⟨hle, hcolumn, hlineStart⟩ := lineStart_of_lead hlead hopen
  have hmargins := margins_eq hlead hle hopen
  simp only [indentation, lineStart_eq, hmargins, minus_eq hle, minus_eq (Nat.le_add_right ..), bytes_eq hle hopen,
    Nat.add_sub_cancel_left, Option.bind_eq_bind, Option.bind_some]
  rw [← hlead, ← hcolumn, ← hlineStart]
  rfl

/-! ## Headers -/

/-- What every further line of a header begins with: the lead, with everything but tabs blanked out. -/
def Indentation.margin (ind : Indentation) : Text := ind.lead.map fun b => if b = tab then tab else space

/-- The first offset at which a header line between two offsets does not repeat the margin, of the offsets that are
left to be compared from `i` on. -/
def mismatchFrom (t : Text) (ind : Indentation) (start stop : Nat) : (left i : Nat) → Option (Option Nat)
  | 0, _ => some none
  | left + 1, i => do
    let place ← minus i start
    let wanted ← ind.margin[place]?
    if i < stop then
      let fits := match t[i]? with
        | some b => if b = space then wanted != tab else if b = tab then wanted == tab
          else decide (i < start + ind.commentColumn)
        | none => decide (i < start + ind.commentColumn)
      if fits then mismatchFrom t ind start stop left (i + 1) else return some i
    else if start + ind.commentColumn ≤ i && t[i]? == some newline then return none
    else return some i

/-- Where a line without its padding ends, in front of a closer. -/
def unpaddedEnd (t : Text) (stop : Nat) : Option Nat :=
  if stop ≠ 0 ∧ t[stop - 1]? = some space then minus stop 1 else some stop

/-- The same where there is a byte in front of the closer. -/
def unpaddedLast (t : Text) (stop : Nat) : Option Nat := do
  let place ← minus stop 1
  let b ← t[place]?
  if b = space then minus stop 1 else some stop

/-- The header lines behind a line feed, which is at `lineEnd`, up to the closer. -/
def furtherLines (t : Text) (ind : Indentation) (closeAt : Nat) : (steps lineEnd : Nat) →
    Option (Except Nat (List Text))
  | 0, _ => none
  | steps + 1, lineEnd => do
    let start := lineEnd + 1
    match ← findByte newline t start closeAt with
    | some next =>
      match ← mismatchFrom t ind start next ind.column start with
      | some i => return .error i
      | none =>
        let line ← span t (start + ind.column) next
        match ← furtherLines t ind closeAt steps next with
        | .ok lines => return .ok (line :: lines)
        | .error i => return .error i
    | none =>
      match ← mismatchFrom t ind start closeAt ind.column start with
      | some i => return .error i
      | none =>
        if ind.column < closeAt - start then
          let last ← unpaddedLast t closeAt
          let line ← span t (start + ind.column) last
          return .ok [line]
        else return .ok []

/-- The first line of a header of several, between two offsets. -/
def firstLine (t : Text) (start lineEnd : Nat) : Option (List Text) :=
  if start < lineEnd then do
    let b ← t[start]?
    let line ← span t (if b = space then start + 1 else start) lineEnd
    return [line]
  else some []

/-- The lines of a header on one line, which stands between two offsets. -/
def singleLine (t : Text) (start closeAt : Nat) : Option (List Text) := do
  let first := if t[start]? = some space then start + 1 else start
  let last ← unpaddedEnd t closeAt
  let line ← span t first last
  return if last ≤ first then [] else [line]

/-- The lines of a header of several. -/
def severalLines (t : Text) (ind : Indentation) (start closeAt : Nat) : Option (Except Nat (List Text)) := do
  let newline? ← findByte newline t start closeAt
  let lineEnd := newline?.getD closeAt
  let first ← firstLine t start lineEnd
  match ← furtherLines t ind closeAt (t.length + 1) lineEnd with
  | .ok lines => return .ok (first ++ lines)
  | .error offset => return .error offset

/-- The lines of the header of a marker. -/
def header (t : Text) (m : Marker) (ind : Indentation) : Option (Except Marker.HeaderFlaw (List Text)) := do
  let closeAt ← minus m.closeEnd m.tokens.closer.length
  let start := m.openAt + m.tokens.opener.length
  match ← findByte newline t m.openAt closeAt with
  | none =>
    if m.tokens.headerRule = .multiline then return .error (.headerMustBeMultiline, m.openAt)
    else return .ok (← singleLine t start closeAt)
  | some _ =>
    if m.tokens.headerRule = .inline then return .error (.headerMustBeInline, m.openAt)
    else
      match ← severalLines t ind start closeAt with
      | .ok lines => return .ok lines
      | .error offset => return .error (.headerIndentation, offset)

/-- **A header line is compared with the margin** offset by offset. -/
theorem mismatchFrom_eq {t : Text} {ind : Indentation} {start stop : Nat} (hstop : stop ≤ t.length)
    {margin : Text} {k : Nat} (hmargin : ind.margin.drop k = margin) (hk : k ≤ (t.extract start stop).length) :
    mismatchFrom t ind start stop margin.length (start + k)
      = some ((Marker.mismatch? ind.commentColumn (t[start + (t.extract start stop).length]? == some newline) k
          margin ((t.extract start stop).drop k)).map (start + ·)) := by
  induction margin generalizing k with
  | nil => rfl
  | cons wanted margin ih =>
    have hwanted : ind.margin[k]? = some wanted := by
      rw [← Nat.add_zero k, ← List.getElem?_drop, hmargin]
      rfl
    have hrest : ind.margin.drop (k + 1) = margin := by rw [← List.drop_drop, hmargin]; rfl
    have hlength : (t.extract start stop).length = stop - start := length_extract hstop
    rw [List.length_cons, mismatchFrom, minus_eq (Nat.le_add_right ..), Nat.add_sub_cancel_left]
    simp only [hwanted, Option.bind_eq_bind, Option.bind_some]
    rcases Nat.lt_or_ge k (t.extract start stop).length with hlt | hge
    · obtain ⟨b, hb⟩ : ∃ b, t[start + k]? = some b := ⟨_, List.getElem?_eq_getElem (by omega)⟩
      have hline : (t.extract start stop).drop k = b :: (t.extract start stop).drop (k + 1) := by
        rw [drop_extract, drop_extract, extract_eq_cons (by omega) hb, Nat.add_assoc]
      have hrepeats : (if b = space then wanted != tab else if b = tab then wanted == tab
          else decide (start + k < start + ind.commentColumn)) = Marker.repeats ind.commentColumn k wanted b := by
        simp [Marker.repeats]
      rw [if_pos (by omega), hline, Marker.mismatch?, hb]
      simp only [hrepeats]
      split
      · exact ih hrest hlt
      · rfl
    · obtain rfl : k = (t.extract start stop).length := Nat.le_antisymm hk hge
      rw [if_neg (by omega), List.drop_length, Marker.mismatch?]
      simp only [Nat.add_le_add_iff_left]
      split <;> rfl

/-! ## Padding -/

/-- A stretch without padding at its front begins one byte later. -/
theorem dropPadding_extract {t : Text} {start stop : Nat} (hstop : stop ≤ t.length) :
    Text.dropPadding (t.extract start stop)
      = t.extract (if t[start]? = some space then start + 1 else start) stop := by
  rcases Nat.lt_or_ge start stop with h | h
  · obtain ⟨b, hb⟩ : ∃ b, t[start]? = some b := ⟨_, List.getElem?_eq_getElem (h.trans_le hstop)⟩
    rw [hb, extract_eq_cons h hb, Text.dropPadding]
    simp only [Option.some.injEq]
    split
    · rfl
    · exact (extract_eq_cons h hb).symm
  · rw [extract_eq_nil (by omega), extract_eq_nil (by split <;> omega)]
    rfl

/-- A stretch without padding at its end ends one byte earlier. -/
theorem dropEndPadding_extract {t : Text} {start stop : Nat} (hstop : stop ≤ t.length) :
    Text.dropEndPadding (t.extract start stop)
      = t.extract start (if stop ≠ 0 ∧ t[stop - 1]? = some space then stop - 1 else stop) := by
  rcases Nat.lt_or_ge start stop with h | h
  · obtain ⟨last, rfl⟩ := Nat.exists_eq_add_of_lt (Nat.zero_lt_of_lt h)
    rw [Nat.zero_add] at *
    have hbyte : t[last]? = some t[last] := List.getElem?_eq_getElem hstop
    rw [Nat.add_sub_cancel, hbyte, extract_succ (Nat.le_of_lt_succ h) hbyte, Text.dropEndPadding,
      List.getLast?_concat, List.dropLast_concat]
    simp only [Option.some.injEq, ne_eq, Nat.succ_ne_zero, not_false_eq_true, true_and]
    split
    · rfl
    · exact (extract_succ (Nat.le_of_lt_succ h) hbyte).symm
  · rw [extract_eq_nil (by omega), extract_eq_nil (by split <;> omega)]
    rfl

/-- Padding is no part of a character. -/
theorem toCharStart_append_space (w : Text) : Text.toCharStart (w ++ [space]) = Text.toCharStart w ++ [space] := by
  rw [Text.toCharStart, List.dropWhile_append]
  split
  next h =>
    rw [Text.toCharStart, List.isEmpty_iff.1 h]
    rfl
  next => rfl

/-- A byte that is no space at the end of a stretch is no padding. -/
theorem dropEndPadding_toCharStart_append {w : Text} {b : UInt8} (hb : b ≠ space) :
    Text.dropEndPadding (Text.toCharStart (w ++ [b])) = Text.toCharStart (w ++ [b]) := by
  rw [Text.dropEndPadding, if_neg]
  intro hlast
  have hsuffix : Text.toCharStart (w ++ [b]) <:+ w ++ [b] := List.dropWhile_suffix _
  have hne : Text.toCharStart (w ++ [b]) ≠ [] := by
    rintro hnil
    rw [hnil] at hlast
    cases hlast
  obtain ⟨front, hfront⟩ := hsuffix
  have hboth := congrArg List.getLast? hfront
  rw [List.getLast?_append_of_ne_nil _ hne, hlast, List.getLast?_concat] at hboth
  exact hb (Option.some.inj hboth).symm

/-- **The last line of a header** loses its padding. -/
theorem span_last {t : Text} {start stop : Nat} (h : start < stop) (hstop : t.isCharStart stop = true) :
    ∃ last, unpaddedLast t stop = some last ∧
      span t start last = some (Text.dropEndPadding (Text.toCharStart (t.extract start stop))) := by
  have hle := Text.le_length_of_isCharStart hstop
  obtain ⟨n, rfl⟩ : ∃ n, stop = n + 1 := ⟨stop - 1, by omega⟩
  obtain ⟨b, hb⟩ : ∃ b, t[n]? = some b := ⟨_, List.getElem?_eq_getElem hle⟩
  rw [unpaddedLast, minus_eq (Nat.le_add_left ..), Nat.add_sub_cancel]
  simp only [Option.bind_eq_bind, Option.bind_some, hb]
  by_cases hspace : b = space
  · subst hspace
    refine ⟨n, if_pos rfl, ?_⟩
    rw [span_eq start (Text.isCharStart_of_getElem? (by decide) hb), extract_succ (Nat.le_of_lt_succ h) hb,
      toCharStart_append_space, Text.dropEndPadding, if_pos (by simp), List.dropLast_concat]
  · refine ⟨n + 1, if_neg hspace, ?_⟩
    rw [span_eq start hstop, extract_succ (Nat.le_of_lt_succ h) hb, dropEndPadding_toCharStart_append hspace]

/-! ## Reading headers -/

variable {t : Text} {m : Marker} {closeAt : Nat}

theorem length_margin (m : Marker) : m.margin.length = m.column := by simp [Marker.margin, Marker.column]

/-- A line between two offsets is compared with the margin of a marker. -/
theorem mismatchFrom_of (m : Marker) {start stop : Nat} (hstop : stop ≤ t.length) :
    mismatchFrom t (.of m) start stop m.column start
      = some ((Marker.mismatch? m.commentColumn (t[start + (t.extract start stop).length]? == some newline) 0 m.margin
          (t.extract start stop)).map (start + ·)) := by
  have hmargin : (Indentation.of m).margin.drop 0 = m.margin := rfl
  have h := mismatchFrom_eq hstop hmargin (Nat.zero_le (t.extract start stop).length)
  rwa [Nat.add_zero, List.drop_zero, length_margin] at h

/-- The last line of a header ends with the header. -/
theorem furtherLines_last (hclose : t.isCharStart closeAt = true) {steps lineEnd : Nat}
    (hnext : Text.byteIn? newline t (lineEnd + 1) closeAt = none) :
    furtherLines t (.of m) closeAt (steps + 1) lineEnd
      = some (Marker.readFurther t m.margin m.commentColumn (lineEnd + 1)
          (Text.lines (t.extract (lineEnd + 1) closeAt))) := by
  have hle := Text.le_length_of_isCharStart hclose
  have hno : newline ∉ t.extract (lineEnd + 1) closeAt := by
    rw [Text.byteIn?, Option.map_eq_none_iff] at hnext
    exact List.idxOf?_eq_none_iff.1 hnext
  rw [furtherLines, findByte_eq, hnext, Text.lines_of_notMem hno, Marker.readFurther]
  simp only [Option.bind_eq_bind, Option.bind_some, show (Indentation.of m).column = m.column from rfl,
    mismatchFrom_of m hle]
  cases Marker.mismatch? _ _ 0 m.margin _ with
  | some i => rfl
  | none =>
    rw [length_extract hle, length_margin]
    simp only [Option.map_none, List.isEmpty_nil, if_true]
    split
    next hlt =>
      have hbody : lineEnd + 1 + m.column < closeAt := by omega
      obtain ⟨last, hlast, hspan⟩ := span_last hbody hclose
      rw [hlast, Option.bind_some, hspan, Marker.cutMargin, drop_extract]
      rfl
    next => rfl

/-- A line that ends in a line feed is followed by the lines that are read from there on. -/
theorem furtherLines_next {steps lineEnd next : Nat}
    (hnext : Text.byteIn? newline t (lineEnd + 1) closeAt = some next)
    (hrest : furtherLines t (.of m) closeAt steps next = some (Marker.readFurther t m.margin m.commentColumn
      (next + 1) (Text.lines (t.extract (next + 1) closeAt)))) :
    furtherLines t (.of m) closeAt (steps + 1) lineEnd
      = some (Marker.readFurther t m.margin m.commentColumn (lineEnd + 1)
          (Text.lines (t.extract (lineEnd + 1) closeAt))) := by
  have hbounds := Text.byteIn?_bounds hnext
  have hcut := Text.isCharStart_of_byteIn? (by decide) hnext
  have hle := Text.le_length_of_isCharStart hcut
  obtain ⟨hline, hno⟩ := Text.extract_of_byteIn? hnext
  rw [furtherLines, findByte_eq, hnext, hline, Text.lines_append_newline hno, Marker.readFurther]
  simp only [Option.bind_eq_bind, Option.bind_some, show (Indentation.of m).column = m.column from rfl,
    mismatchFrom_of m hle]
  cases Marker.mismatch? _ _ 0 m.margin _ with
  | some i => rfl
  | none =>
    have hmore : (Text.lines (t.extract (next + 1) closeAt)).isEmpty = false := by
      rw [List.isEmpty_eq_false_iff]
      exact Text.lines_ne_nil _
    have hlength : lineEnd + 1 + (t.extract (lineEnd + 1) next).length + 1 = next + 1 := by
      rw [length_extract hle]
      omega
    rw [hlength, length_margin, hmore, Marker.cutMargin, drop_extract]
    simp only [Option.map_none, span_eq _ hcut, Option.bind_some, hrest]
    cases Marker.readFurther t m.margin m.commentColumn (next + 1) (Text.lines (t.extract (next + 1) closeAt)) <;>
      rfl

/-- **The further lines of a header** are read one after the other, each of them behind the line feed of the one
before. -/
theorem furtherLines_eq (hclose : t.isCharStart closeAt = true) {steps lineEnd : Nat}
    (hsteps : closeAt - lineEnd < steps) : furtherLines t (.of m) closeAt steps lineEnd
      = some (Marker.readFurther t m.margin m.commentColumn (lineEnd + 1)
          (Text.lines (t.extract (lineEnd + 1) closeAt))) := by
  induction steps generalizing lineEnd with
  | zero => exact absurd hsteps (Nat.not_lt_zero _)
  | succ steps ih =>
    cases hnext : Text.byteIn? newline t (lineEnd + 1) closeAt with
    | none => exact furtherLines_last hclose hnext
    | some next =>
      have hbounds := Text.byteIn?_bounds hnext
      exact furtherLines_next hnext (ih (by omega))

/-- The first line of a header of several is read without the space in front of it. -/
theorem firstLine_eq (ht : t.Encoded) {start stop : Nat} (hstart : t.isCharStart start = true)
    (hstop : t.isCharStart stop = true) :
    firstLine t start stop = some (Marker.firstLine (t.extract start stop)) := by
  have hle := Text.le_length_of_isCharStart hstop
  rw [firstLine]
  split
  next hlt =>
    obtain ⟨b, hb⟩ : ∃ b, t[start]? = some b := ⟨_, List.getElem?_eq_getElem (hlt.trans_le hle)⟩
    have hcut : t.isCharStart (if b = space then start + 1 else start) = true := by
      split
      next hspace => exact ht.isCharStart_succ (by decide) (hspace ▸ hb)
      next => exact hstart
    have hpadding : Text.dropPadding (t.extract start stop)
        = t.extract (if t[start]? = some space then start + 1 else start) stop := dropPadding_extract hle
    simp only [hb, Option.some.injEq] at hpadding
    rw [hb, Option.bind_eq_bind, Option.bind_some, span_eq_extract hcut hstop, ← hpadding, Marker.firstLine,
      extract_eq_cons hlt hb]
    rfl
  next hge =>
    rw [extract_eq_nil (by omega)]
    rfl

/-- A header on one line is read without its padding. -/
theorem singleLine_eq (ht : t.Encoded) {start : Nat} (hstart : t.isCharStart start = true)
    (hclose : t.isCharStart closeAt = true) : singleLine t start closeAt
      = some (if (Text.unpad (t.extract start closeAt)).isEmpty then []
        else [Text.unpad (t.extract start closeAt)]) := by
  have hle := Text.le_length_of_isCharStart hclose
  have hfirst : t.isCharStart (if t[start]? = some space then start + 1 else start) = true := by
    split
    next hspace => exact ht.isCharStart_succ (by decide) hspace
    next => exact hstart
  obtain ⟨last, hlast, hcut, hunpad⟩ : ∃ last, unpaddedEnd t closeAt = some last ∧ t.isCharStart last = true ∧
      Text.unpad (t.extract start closeAt) = t.extract (if t[start]? = some space then start + 1 else start) last := by
    rw [Text.unpad, dropPadding_extract hle, dropEndPadding_extract hle, unpaddedEnd]
    split
    next hspace =>
      exact ⟨_, minus_eq (by omega), Text.isCharStart_of_getElem? (by decide) hspace.2, rfl⟩
    next => exact ⟨_, rfl, hclose, rfl⟩
  have hlastLe := Text.le_length_of_isCharStart hcut
  have hempty : (Text.unpad (t.extract start closeAt)).isEmpty
      = decide (last ≤ if t[start]? = some space then start + 1 else start) := by
    rw [hunpad, Bool.eq_iff_iff, List.isEmpty_iff_length_eq_zero, length_extract hlastLe, decide_eq_true_iff]
    omega
  rw [singleLine, hlast]
  simp only [Option.bind_eq_bind, Option.bind_some, span_eq_extract hfirst hcut, ← hunpad, hempty, decide_eq_true_eq]
  rfl

/-- A header of several lines is read line by line. -/
theorem severalLines_eq (ht : t.Encoded) {start : Nat} (hstart : t.isCharStart start = true)
    (hclose : t.isCharStart closeAt = true) (hle : start ≤ closeAt) : severalLines t (.of m) start closeAt
      = some (match Text.lines (t.extract start closeAt) with
        | [] => .ok []
        | first :: more =>
          match Marker.readFurther t m.margin m.commentColumn (start + first.length + 1)
              (if more.isEmpty then [[]] else more) with
          | .ok lines => .ok (Marker.firstLine first ++ lines)
          | .error offset => .error offset) := by
  have hbound := Text.le_length_of_isCharStart hclose
  obtain ⟨lineEnd, hlineEnd, hcut, hlineEndLe, more, hlines, hmore⟩ : ∃ lineEnd,
      (Text.byteIn? newline t start closeAt).getD closeAt = lineEnd ∧ t.isCharStart lineEnd = true ∧ start ≤ lineEnd ∧
        ∃ more, Text.lines (t.extract start closeAt) = t.extract start lineEnd :: more ∧
          (if more.isEmpty then [[]] else more) = Text.lines (t.extract (lineEnd + 1) closeAt) := by
    cases hnewline : Text.byteIn? newline t start closeAt with
    | none =>
      have hno : newline ∉ t.extract start closeAt := by
        rw [Text.byteIn?, Option.map_eq_none_iff] at hnewline
        exact List.idxOf?_eq_none_iff.1 hnewline
      refine ⟨closeAt, rfl, hclose, hle, [], Text.lines_of_notMem hno, ?_⟩
      rw [extract_eq_nil (by omega)]
      rfl
    | some next =>
      obtain ⟨hline, hno⟩ := Text.extract_of_byteIn? hnewline
      refine ⟨next, rfl, Text.isCharStart_of_byteIn? (by decide) hnewline,
        (Text.byteIn?_bounds hnewline).1, Text.lines (t.extract (next + 1) closeAt), ?_, ?_⟩
      · rw [hline, Text.lines_append_newline hno]
      · rw [if_neg (by simpa using Text.lines_ne_nil _)]
  rw [severalLines, findByte_eq]
  simp only [Option.bind_eq_bind, Option.bind_some, hlineEnd, firstLine_eq ht hstart hcut,
    furtherLines_eq hclose (by omega : closeAt - lineEnd < t.length + 1), hlines, hmore,
    length_extract (Text.le_length_of_isCharStart hcut), Nat.add_sub_cancel' hlineEndLe]
  cases Marker.readFurther t m.margin m.commentColumn (lineEnd + 1) (Text.lines (t.extract (lineEnd + 1) closeAt)) <;>
    rfl

/-- **The header of a marker** is read as ever. -/
theorem header_eq (ht : t.Encoded) (hcloseEnd : m.closeEnd = closeAt + m.tokens.closer.length)
    (hstart : t.isCharStart (m.openAt + m.tokens.opener.length) = true) (hclose : t.isCharStart closeAt = true)
    (hle : m.openAt + m.tokens.opener.length ≤ closeAt) :
    header t m (.of m) = some (Marker.readHeader t m closeAt) := by
  rw [header, hcloseEnd, minus_eq (Nat.le_add_left ..), Nat.add_sub_cancel]
  simp only [findByte_eq, Option.bind_eq_bind, Option.bind_some, singleLine_eq ht hstart hclose,
    severalLines_eq ht hstart hclose hle, Marker.readHeader]
  cases hnewline : Text.byteIn? newline t m.openAt closeAt with
  | none =>
    have hno : newline ∉ t.extract m.openAt closeAt := by
      rw [Text.byteIn?, Option.map_eq_none_iff] at hnewline
      exact List.idxOf?_eq_none_iff.1 hnewline
    simp only [hno, not_false_eq_true, if_true]
    split <;> rfl
  | some i =>
    have hmem : newline ∈ t.extract m.openAt closeAt := by
      rw [(Text.extract_of_byteIn? hnewline).1]
      simp
    simp only [hmem, not_true, if_false]
    split
    · rfl
    · cases Text.lines (t.extract (m.openAt + m.tokens.opener.length) closeAt) with
      | nil => rfl
      | cons first more =>
        dsimp only
        cases Marker.readFurther t m.margin m.commentColumn _ (if more.isEmpty then [[]] else more) <;> rfl

/-! ## Finding markers -/

/-- Stops at an access that is out of range. -/
def halt {α : Type} : Guarded α := ExceptT.mk none

/-- The marker whose opener and closer stand at these offsets. -/
def read (t : Text) (family : Family) (tokens : Tokens) (openAt closeAt : Nat) : Guarded Marker := do
  let ind ← indentation t tokens openAt
  let bare : Marker :=
    { family, tokens, openAt, lead := ind.lead, closeEnd := closeAt + tokens.closer.length, headerLines := [] }
  match ← header t bare ind with
  | .ok headerLines => return { bare with headerLines }
  | .error (problem, offset) => failAt problem (locate t offset tokens.opener.length)

/-- The markers of a family between two offsets, found in a number of steps that has to be enough. -/
def scanFrom (t : Text) (family : Family) (tokens : Tokens) (stop : Nat) : (steps start : Nat) → Guarded (List Marker)
  | 0, _ => halt
  | steps + 1, start =>
    match findToken tokens.opener t start stop with
    | none => return []
    | some openAt =>
      match findToken tokens.closer t (openAt + tokens.opener.length) stop with
      | none => failAt (.unclosedMarker tokens.closer) (locate t openAt tokens.opener.length)
      | some closeAt => do
        let m ← read t family tokens openAt closeAt
        let rest ← scanFrom t family tokens stop steps m.closeEnd
        return m :: rest

/-- The markers of a family between two offsets. -/
def scan (t : Text) (family : Family) (tokens : Tokens) (start stop : Nat) : Guarded (List Marker) :=
  scanFrom t family tokens stop (stop - start + 1) start

/-- The edit markers in the gaps between markers, put in their places among them. -/
def scanGaps (t : Text) (tokens : Tokens) : (start : Nat) → List Marker → Guarded (List Marker)
  | start, [] => scan t .edit tokens start t.length
  | start, m :: rest => do
    let before ← scan t .edit tokens start m.openAt
    let after ← scanGaps t tokens m.closeEnd rest
    return before ++ m :: after

/-- All markers of a text. -/
def scanAll (t : Text) (s : Settings) : Guarded (List Marker) := do
  let generation ← scan t .generation s.generation 0 t.length
  scanGaps t s.edit 0 generation

end Regen.Checked

namespace Regen

/-- Settings whose tokens are written in characters. -/
structure Settings.Encoded (s : Settings) : Prop where
  /-- The opener of a family is. -/
  opener (f : Family) : (s.tokens f).opener.Encoded
  /-- The closer of a family is. -/
  closer (f : Family) : (s.tokens f).closer.Encoded

/-- **A marker whose ends lie between characters**, with what stands in front of it on its line. -/
structure Marker.Placed (t : Text) (m : Marker) : Prop where
  /-- Its opener begins between characters. -/
  openAt : t.isCharStart m.openAt = true
  /-- Its closer ends between characters. -/
  closeEnd : t.isCharStart m.closeEnd = true
  /-- Its closer begins inside of the text. -/
  closer : m.tokens.closer.length ≤ m.closeEnd
  /-- Its lead is what stands in front of it on its line. -/
  lead : m.lead = t.extract (Text.lineStart t m.openAt) m.openAt

/-- Markers that are placed one behind the other, from an offset on up to another one. -/
def Marker.AllPlaced (t : Text) (stop : Nat) : (start : Nat) → List Marker → Prop
  | start, [] => start ≤ stop
  | start, m :: rest => start ≤ m.openAt ∧ m.Placed t ∧ AllPlaced t stop m.closeEnd rest

theorem Marker.AllPlaced.placed {t : Text} {start stop : Nat} {ms : List Marker} (h : AllPlaced t stop start ms) :
    ∀ m ∈ ms, m.Placed t := by
  induction ms generalizing start with
  | nil => simp
  | cons m ms ih =>
    obtain ⟨-, hm, hms⟩ := h
    exact List.forall_mem_cons.2 ⟨hm, ih hms⟩

/-- **A token stands between characters** in a text written in characters. -/
theorem Text.Encoded.isCharStart_of_standsAt {t token : Text} {i : Nat} (ht : t.Encoded) (htoken : token.Encoded)
    (hne : token ≠ []) (h : StandsAt token t i) : t.isCharStart i = true ∧ t.isCharStart (i + token.length) = true := by
  obtain ⟨rest, hrest⟩ := h
  have hi : i ≤ t.length := by
    by_contra hlt
    rw [List.drop_of_length_le (by omega)] at hrest
    simp [hne] at hrest
  have hlength : (t.take i).length = i := by simp [hi]
  have hsplit : t.take i ++ token ++ rest = t := by rw [List.append_assoc, hrest, List.take_append_drop]
  have hparts : Encoded (t.take i ++ token ++ rest) := by rwa [hsplit]
  obtain ⟨hfront, hback⟩ := hparts.of_token htoken hne
  have hbehind := hparts.isCharStart_iff.2 ⟨hfront.append htoken, hback⟩
  rw [List.append_assoc] at hparts
  have hbefore := hparts.isCharStart_iff.2 ⟨hfront, htoken.append hback⟩
  rw [hsplit, List.length_append, hlength] at hbehind
  rw [hrest, List.take_append_drop, hlength] at hbefore
  exact ⟨hbefore, hbehind⟩

namespace Checked

section

variable {t : Text} {family : Family} {tokens : Tokens} (ht : t.Encoded)
include ht

/-- **A marker is read as ever.** -/
theorem read_eq {openAt closeAt : Nat} (hopen : t.isCharStart openAt = true)
    (hstart : t.isCharStart (openAt + tokens.opener.length) = true) (hclose : t.isCharStart closeAt = true)
    (hle : openAt + tokens.opener.length ≤ closeAt) :
    read t family tokens openAt closeAt = answered (Marker.read t family tokens openAt closeAt) := by
  let bare : Marker :=
    { family, tokens, openAt
      lead := t.extract (Text.lineStart t openAt) openAt
      closeEnd := closeAt + tokens.closer.length
      headerLines := [] }
  have hind : indentation t tokens openAt = some (.of bare) :=
    indentation_eq (m := bare) rfl (Text.le_length_of_isCharStart hopen)
  have hheader : header t bare (.of bare) = some (Marker.readHeader t bare closeAt) :=
    header_eq (m := bare) ht rfl hstart hclose hle
  have hread : Marker.read t family tokens openAt closeAt = match Marker.readHeader t bare closeAt with
      | .ok headerLines => .ok { bare with headerLines }
      | .error (problem, offset) => Regen.failAt problem (Location.ofOffset t offset tokens.opener.length) := rfl
  rw [read, hind, lift_some_bind, hread, show (Indentation.of bare).lead = bare.lead from rfl]
  simp only [bare] at hheader ⊢
  rw [hheader, lift_some_bind]
  cases Marker.readHeader t bare closeAt with
  | ok headerLines => rfl
  | error flaw => simp only [locate_eq ht, failAt_some]

omit ht in
/-- What is read stands between its opener and its closer. -/
theorem placed_of_read {openAt closeAt : Nat} {m : Marker} (h : Marker.read t family tokens openAt closeAt = .ok m)
    (hopen : t.isCharStart openAt = true) (hend : t.isCharStart (closeAt + tokens.closer.length) = true) :
    m.openAt = openAt ∧ m.closeEnd = closeAt + tokens.closer.length ∧ m.Placed t := by
  rw [Marker.read] at h
  dsimp only at h
  split at h
  · cases h
    exact ⟨rfl, rfl, hopen, hend, Nat.le_add_left .., rfl⟩
  · cases h

/-- **A scan is never out of range**, and what it finds is placed one behind the other. -/
theorem scanFrom_eq {stop : Nat} (hopener : tokens.opener.Encoded) (hcloser : tokens.closer.Encoded)
    (hone : tokens.opener ≠ []) (hcne : tokens.closer ≠ []) (hstop : t.isCharStart stop = true) {steps start : Nat}
    (hstart : t.isCharStart start = true) (hle : start ≤ stop) (hsteps : stop - start < steps) :
    scanFrom t family tokens stop steps start = answered (Marker.scanFrom t family tokens stop steps start) ∧
      ∀ ms, Marker.scanFrom t family tokens stop steps start = .ok ms → Marker.AllPlaced t stop start ms := by
  induction steps generalizing start with
  | zero => exact absurd hsteps (Nat.not_lt_zero _)
  | succ steps ih =>
    rw [scanFrom, Marker.scanFrom, findToken_eq hstart hstop hle]
    cases hopen : Text.findIn? tokens.opener t start stop with
    | none => exact ⟨rfl, fun ms h => by cases h; exact hle⟩
    | some openAt =>
      have hfirst := (Text.findIn?_eq_some_iff_firstIn hone).1 hopen
      obtain ⟨hopenAt, hbehind⟩ := ht.isCharStart_of_standsAt hopener hone hfirst.stands
      simp only [findToken_eq hbehind hstop hfirst.le_stop]
      cases hclose : Text.findIn? tokens.closer t (openAt + tokens.opener.length) stop with
      | none => exact ⟨by rw [locate_eq ht, failAt_some], fun ms h => by cases h⟩
      | some closeAt =>
        have hcfirst := (Text.findIn?_eq_some_iff_firstIn hcne).1 hclose
        obtain ⟨hcloseAt, hcloseEnd⟩ := ht.isCharStart_of_standsAt hcloser hcne hcfirst.stands
        have hnext : ∀ m, Marker.read t family tokens openAt closeAt = .ok m →
            start ≤ m.openAt ∧ m.Placed t ∧ scanFrom t family tokens stop steps m.closeEnd
              = answered (Marker.scanFrom t family tokens stop steps m.closeEnd) ∧
            ∀ ms, Marker.scanFrom t family tokens stop steps m.closeEnd = .ok ms →
              Marker.AllPlaced t stop m.closeEnd ms := by
          intro m hm
          obtain ⟨hmopen, hmclose, hplaced⟩ := placed_of_read hm hopenAt hcloseEnd
          have hpos := List.length_pos_of_ne_nil hone
          have hstartLe := hfirst.start_le
          have hopenLe := hcfirst.start_le
          have hstopLe := hcfirst.le_stop
          exact ⟨by omega, hplaced, ih hplaced.closeEnd (by omega) (by omega)⟩
        refine ⟨?_, fun ms h => ?_⟩
        · simp only [read_eq ht hopenAt hbehind hcloseAt hcfirst.start_le]
          refine answered_bind_eq fun m hm => ?_
          rw [(hnext m hm).2.2.1]
          exact answered_bind_eq fun rest _ => rfl
        · obtain ⟨m, hm, h⟩ := bind_eq_ok_iff.1 h
          obtain ⟨rest, hrest, h⟩ := bind_eq_ok_iff.1 h
          cases h
          obtain ⟨hle, hplaced, -, hall⟩ := hnext m hm
          exact ⟨hle, hplaced, hall rest hrest⟩

end

section

variable {t : Text} (ht : t.Encoded) {s : Settings} (hs : s.Encoded) (husable : Document.Usable s)
include ht hs husable

/-- Scanning for the markers of a family is never out of range. -/
theorem scan_eq (family : Family) {start stop : Nat} (hstart : t.isCharStart start = true)
    (hstop : t.isCharStart stop = true) (hle : start ≤ stop) :
    scan t family (s.tokens family) start stop = answered (Marker.scan t family (s.tokens family) start stop) ∧
      ∀ ms, Marker.scan t family (s.tokens family) start stop = .ok ms → Marker.AllPlaced t stop start ms :=
  scanFrom_eq ht (hs.opener family) (hs.closer family) (husable.opener family) (husable.closer family) hstop hstart hle
    (Nat.lt_succ_self _)

/-- **Scanning the gaps between markers** is never out of range, as these are placed one behind the other. -/
theorem scanGaps_eq {ms : List Marker} {start : Nat} (hplaced : Marker.AllPlaced t t.length start ms)
    (hstart : t.isCharStart start = true) :
    scanGaps t s.edit start ms = answered (Marker.scanGaps t s.edit start ms) ∧
      ∀ ms', Marker.scanGaps t s.edit start ms = .ok ms' → ∀ m ∈ ms', m.Placed t := by
  induction ms generalizing start with
  | nil =>
    obtain ⟨heq, hall⟩ := scan_eq ht hs husable .edit hstart t.isCharStart_length hplaced
    exact ⟨heq, fun ms' h => (hall ms' h).placed⟩
  | cons m ms ih =>
    obtain ⟨hle, hm, hms⟩ := hplaced
    obtain ⟨heq, hall⟩ := scan_eq ht hs husable .edit hstart hm.openAt hle
    obtain ⟨hrest, hallRest⟩ := ih hms hm.closeEnd
    refine ⟨?_, fun ms' h => ?_⟩
    · rw [scanGaps, show s.edit = s.tokens .edit from rfl, heq]
      refine answered_bind_eq fun before _ => ?_
      rw [show s.tokens .edit = s.edit from rfl, hrest]
      exact answered_bind_eq fun after _ => rfl
    · obtain ⟨before, hbefore, h⟩ := bind_eq_ok_iff.1 h
      obtain ⟨after, hafter, h⟩ := bind_eq_ok_iff.1 h
      cases h
      intro m' hm'
      rcases List.mem_append.1 hm' with hm' | hm'
      · exact (hall before hbefore).placed m' hm'
      · rcases List.mem_cons.1 hm' with rfl | hm'
        · exact hm
        · exact hallRest after hafter m' hm'

/-- **Finding the markers of a text is never out of range**, and all of them are placed in it. -/
theorem scanAll_eq : scanAll t s = answered (Marker.scanAll t s) ∧
    ∀ ms, Marker.scanAll t s = .ok ms → ∀ m ∈ ms, m.Placed t := by
  obtain ⟨heq, hall⟩ := scan_eq ht hs husable .generation ht.isCharStart_zero t.isCharStart_length (Nat.zero_le _)
  refine ⟨?_, fun ms h => ?_⟩
  · rw [scanAll, show s.generation = s.tokens .generation from rfl, heq]
    exact answered_bind_eq fun generation h => (scanGaps_eq ht hs husable (hall generation h) ht.isCharStart_zero).1
  · obtain ⟨generation, hgeneration, h⟩ := bind_eq_ok_iff.1 h
    exact (scanGaps_eq ht hs husable (hall generation hgeneration) ht.isCharStart_zero).2 ms h

end

end Checked

end Regen
