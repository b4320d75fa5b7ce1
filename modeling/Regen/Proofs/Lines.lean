import Regen.Proofs.Occurrence
import Regen.Text.Indent

/-!
# Lines and indentation

The lines of a text are what it splits into at its line feeds, so the library's `List.splitOn`
gives the two directions between a text and its lines. Indentation works line by line, and taking
off as many blanks as were put in front gives back the text, blank lines included, because an
indented blank line still is a line of its own.
-/

namespace Regen.Text

/-- The lines of a text are its parts between line feeds. -/
theorem lines_eq_splitOn (t : Text) : lines t = t.splitOn newline := by
  induction t with
  | nil => rfl
  | cons b t ih =>
    rw [lines, List.splitOn_cons_eq_if_modifyHead, ih]
    by_cases hb : b = newline
    · simp [hb]
    · cases h : t.splitOn newline with
      | nil => exact absurd h (List.splitOn_ne_nil newline t)
      | cons line more => simp [hb]

theorem lines_ne_nil (t : Text) : lines t ≠ [] := by
  rw [lines_eq_splitOn]
  exact List.splitOn_ne_nil newline t

/-- A text is that of its lines. -/
@[simp] theorem ofLines_lines (t : Text) : ofLines (lines t) = t := by
  rw [lines_eq_splitOn]
  exact List.intercalate_splitOn newline

/-- The lines of the text of some lines are these lines. -/
theorem lines_ofLines {ls : List Text} (h : ∀ l ∈ ls, newline ∉ l) (hne : ls ≠ []) :
    lines (ofLines ls) = ls := by
  rw [lines_eq_splitOn]
  exact List.splitOn_intercalate newline h hne

/-- A text without line feeds is one line. -/
theorem lines_of_notMem {t : Text} (h : newline ∉ t) : lines t = [t] := by
  rw [lines_eq_splitOn]
  exact List.splitOn_eq_singleton h

/-- A line feed ends the first line. -/
theorem lines_append_newline {u : Text} (h : newline ∉ u) (v : Text) :
    lines (u ++ newline :: v) = u :: lines v := by
  rw [lines_eq_splitOn, lines_eq_splitOn]
  exact List.splitOn_append_cons_self_of_not_mem h v

/-- Texts are built line by line. -/
@[elab_as_elim]
theorem line_induction {motive : Text → Prop} (t : Text)
    (last : ∀ line, newline ∉ line → motive line)
    (more : ∀ line rest, newline ∉ line → motive rest → motive (line ++ newline :: rest)) :
    motive t := by
  induction hn : t.length using Nat.strongRecOn generalizing t with
  | ind n ih =>
    rcases notMem_or_eq_newline t with ht | ⟨line, rest, rfl, hline⟩
    · exact last t ht
    · exact more line rest hline (ih rest.length (by simp at hn; omega) rest rfl)

/-- Lines hold no line feeds. -/
theorem newline_notMem_of_mem_lines {t line : Text} (h : line ∈ lines t) : newline ∉ line := by
  induction t using line_induction with
  | last t ht =>
    rw [lines_of_notMem ht, List.mem_singleton] at h
    rwa [h]
  | more first rest hfirst ih =>
    rw [lines_append_newline hfirst, List.mem_cons] at h
    rcases h with rfl | h
    · exact hfirst
    · exact ih h

@[simp] theorem ofLines_singleton (line : Text) : ofLines [line] = line := by
  simp [ofLines]

/-- The first of several lines stands in front of the others. -/
theorem ofLines_cons (line : Text) {ls : List Text} (h : ls ≠ []) :
    ofLines (line :: ls) = line ++ newline :: ofLines ls := by
  cases ls with
  | nil => exact absurd rfl h
  | cons l ls => simp [ofLines, List.intercalate]

/-! ## Indentation -/

theorem isIndent_iff {b : UInt8} : isIndent b ↔ b = space ∨ b = tab := by
  simp [isIndent]

/-- Indentation holds no line feeds. -/
theorem newline_notMem_of_isIndent {margin : Text} (h : ∀ b ∈ margin, isIndent b) :
    newline ∉ margin := fun hn => by simpa [isIndent, newline, space, tab] using h _ hn

/-- A text with a margin in front of all of its lines but the first. -/
def hang (margin t : Text) : Text := t.withNewline (newline :: margin)

@[simp] theorem hang_nil (margin : Text) : hang margin [] = [] := rfl

@[simp] theorem hang_append (margin t u : Text) :
    hang margin (t ++ u) = hang margin t ++ hang margin u := List.flatMap_append

theorem hang_cons (margin : Text) (b : UInt8) (t : Text) :
    hang margin (b :: t) = (if b = newline then newline :: margin else [b]) ++ hang margin t := rfl

@[simp] theorem hang_eq_nil_iff {margin t : Text} : hang margin t = [] ↔ t = [] := by
  cases t with
  | nil => simp
  | cons b t =>
    rw [hang_cons]
    split <;> simp

/-- A single line has no margin. -/
theorem hang_of_notMem {margin t : Text} (h : newline ∉ t) : hang margin t = t := by
  induction t with
  | nil => rfl
  | cons b t ih =>
    rw [hang_cons, ih fun ht => h (by simp [ht]), if_neg fun hb => h (by simp [hb])]
    rfl

/-- What follows the first line is indented. -/
theorem hang_append_newline {margin line : Text} (h : newline ∉ line) (rest : Text) :
    hang margin (line ++ newline :: rest) = line ++ newline :: indent margin rest := by
  rw [hang_append, hang_of_notMem h, hang_cons, if_pos rfl]
  rfl

/-- **Indentation is put in front of every line.** -/
theorem indent_eq_ofLines (margin t : Text) :
    indent margin t = ofLines ((lines t).map (margin ++ ·)) := by
  induction t using line_induction with
  | last t ht =>
    rw [lines_of_notMem ht, List.map_singleton, ofLines_singleton]
    exact congrArg (margin ++ ·) (hang_of_notMem ht)
  | more line rest hline ih =>
    rw [lines_append_newline hline, List.map_cons,
      ofLines_cons _ (by simpa using lines_ne_nil rest), ← ih, List.append_assoc]
    exact congrArg (margin ++ ·) (hang_append_newline hline rest)

/-- The lines of an indented text. -/
theorem lines_indent {margin : Text} (h : newline ∉ margin) (t : Text) :
    lines (indent margin t) = (lines t).map (margin ++ ·) := by
  rw [indent_eq_ofLines, lines_ofLines]
  · simp only [List.mem_map]
    rintro _ ⟨line, hline, rfl⟩
    simpa [h] using newline_notMem_of_mem_lines hline
  · simpa using lines_ne_nil t

/-- A line loses the indentation that was put in front of it, and nothing else. -/
theorem dedentLine_append {margin : Text} (h : ∀ b ∈ margin, isIndent b) (line : Text) :
    dedentLine margin.length (margin ++ line) = line := by
  rw [dedentLine, List.take_left, List.takeWhile_eq_self_iff.2 (by simpa using h), List.drop_left]

/-- **Taking off the indentation undoes putting it in front.** -/
theorem dedent_indent {margin : Text} (h : ∀ b ∈ margin, isIndent b) (t : Text) :
    dedent margin.length (indent margin t) = t := by
  rw [dedent, lines_indent (newline_notMem_of_isIndent h), List.map_map]
  have hid : (lines t).map (dedentLine margin.length ∘ (margin ++ ·)) = (lines t).map id :=
    List.map_congr_left fun line _ => dedentLine_append h line
  rw [hid, List.map_id, ofLines_lines]

end Regen.Text
