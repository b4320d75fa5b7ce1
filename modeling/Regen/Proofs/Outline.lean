import Regen.Proofs.Hanging
import Regen.Proofs.Reading

/-!
# Printed outlines

An outline is what a text with blocks is meant to say: lines of text, blocks on one line with a body of
one line, and blocks of whole lines, which hold an outline again. It is printed line by line with the
standard tokens (`Outline.lines`), and the pieces it is printed from cannot be mistaken for anything
else: no line of text and no body opens a marker, no header closes its own marker or passes for the
word that ends blocks. Each piece carries these facts with it, so there is no outline that they fail
for.

Here the printed text is cut into lexemes. Every marker stands between blanks and line feeds, and
tokens hold neither, so no token runs from one piece into the next (`Outline.lexed`). The markers that
are read are those that were printed, where they were printed (`Outline.markersFrom_lexemes`).
-/

namespace Regen

open Text (newline space)

/-! ## Outlines -/

/-- **A text on one line that opens no marker.** -/
structure PlainLine where
  /-- The text. -/
  text : Text
  /-- It is on one line. -/
  newline_notMem : newline ∉ text
  /-- No opener is written in it. -/
  opens_nothing : ∀ f, ¬ (Settings.standard.tokens f).opener <:+: text

/-- Spaces and tabs in front of a marker. -/
structure Margin where
  /-- The text. -/
  text : Text
  /-- It is blank. -/
  isIndent : ∀ b ∈ text, Text.isIndent b

/-- **What a marker says**: its family, and a header that does not close the marker and does not end a
block. -/
structure Heading extends PlainLine where
  /-- The family. -/
  family : Family
  /-- The closer of the family is not written in the header. -/
  closes_nothing : ¬ (Settings.standard.tokens family).closer <:+: text
  /-- The header is not the word that ends a block. -/
  not_endWord : text ≠ (Settings.standard.tokens family).endWord

/-- **An outline**: items one below the other. -/
inductive Outline where
  /-- No items. -/
  | nil
  /-- A line of text, and the items below it. -/
  | line (text : PlainLine) (rest : Outline)
  /-- A block on one line, and the items below it. -/
  | leaf (margin : Margin) (heading : Heading) (body : PlainLine) (rest : Outline)
  /-- A block of whole lines with the items in it, and the items below it. The two markers of the block
  need not have the same margin. -/
  | block (margin : Margin) (heading : Heading) (inner : Outline) (endMargin : Margin)
    (rest : Outline)

namespace Heading

/-- The open marker as it is printed. -/
def opens (h : Heading) : Text := (Settings.standard.tokens h.family).quote h.text

/-- The end marker as it is printed. -/
def ends (h : Heading) : Text :=
  (Settings.standard.tokens h.family).quote (Settings.standard.tokens h.family).endWord

end Heading

namespace Outline

/-- The padded body of a block on one line. -/
def padded (body : PlainLine) : Text := [space] ++ body.text ++ [space]

/-- The lines of an outline. -/
def lines : Outline → List Text
  | nil => []
  | line text rest => text.text :: rest.lines
  | leaf margin h body rest => (margin.text ++ h.opens ++ padded body ++ h.ends) :: rest.lines
  | block margin h inner endMargin rest =>
    (margin.text ++ h.opens) :: (inner.lines ++ (endMargin.text ++ h.ends) :: rest.lines)

/-- **The printed text of an outline**: its lines with line feeds between them. -/
def text (o : Outline) : Text := Text.ofLines o.lines

/-- The lines of an outline, each with a line feed behind it. -/
def printed : Outline → Text
  | nil => []
  | line text rest => text.text ++ [newline] ++ rest.printed
  | leaf margin h body rest =>
    margin.text ++ h.opens ++ padded body ++ h.ends ++ [newline] ++ rest.printed
  | block margin h inner endMargin rest =>
    margin.text ++ h.opens ++ [newline] ++ inner.printed ++ endMargin.text ++ h.ends ++ [newline]
      ++ rest.printed

/-- Printing puts a line feed behind each line. -/
theorem printed_eq_flatMap (o : Outline) : o.printed = o.lines.flatMap (· ++ [newline]) := by
  induction o with
  | nil => rfl
  | line text rest ih => simp [printed, lines, ih]
  | leaf margin h body rest ih => simp [printed, lines, ih]
  | block margin h inner endMargin rest ihInner ihRest =>
    simp [printed, lines, ihInner, ihRest]

/-- Nothing is printed, or it is the text of the lines and a line feed. -/
theorem printed_eq (o : Outline) :
    o.lines = [] ∧ o.printed = [] ∨ o.printed = Text.ofLines o.lines ++ [newline] := by
  rw [printed_eq_flatMap]
  induction o.lines with
  | nil => exact .inl ⟨rfl, rfl⟩
  | cons line ls ih =>
    refine .inr ?_
    rcases ih with ⟨rfl, -⟩ | ih
    · simp
    · have hls : ls ≠ [] := by
        rintro rfl
        cases ih
      rw [List.flatMap_cons, ih, Text.ofLines_cons line hls]
      simp

/-- Whole lines are printed. -/
theorem whole_printed (o : Outline) : Text.Whole o.printed := by
  rcases o.printed_eq with ⟨-, h⟩ | h
  · exact .inl h
  · exact .inr (by rw [h, List.getLast?_concat])

end Outline

/-! ## Lexemes of printed text -/

/-- The standard settings can be used. -/
theorem Settings.usable_standard : Document.Usable .standard :=
  ⟨fun f => by cases f <;> decide +kernel, fun f => by cases f <;> decide +kernel,
    fun f => by cases f <;> decide +kernel⟩

/-- Where two texts are put together with a blank between them, no token runs across. -/
theorem Text.Clear.append_cons {token x z w : Text} {b : UInt8} (htoken : Solid token)
    (hne : token ≠ []) (hb : IsGap b) (hx : Clear token x []) (hz : Clear token z w) :
    Clear token (x ++ b :: z) w := by
  have hgap : Clear token [b] (z ++ w) := clear_of_isGap htoken hne (by simpa using hb)
  have hseam : Seam (x ++ []) (b :: (z ++ w)) := .inr (.inr (.inr ⟨b, rfl, hb⟩))
  rw [clear_append]
  exact ⟨hx.append_of_seam (y := []) htoken hseam, hgap.1, hz⟩

namespace Lexeme

/-- The lexeme of a printed marker. -/
def written (f : Family) (header : Text) : Lexeme := marker f (space :: (header ++ [space]))

/-- A marker is printed as messages quote it. -/
@[simp] theorem text_written (f : Family) (header : Text) :
    text .standard (written f header) = (Settings.standard.tokens f).quote header := by
  simp [written, text, Tokens.quote]

/-- **A printed marker is read as one**, if its header opens no marker and does not close this one. -/
theorem lexed_written {f : Family} {header : Text}
    (hopens : ∀ f, ¬ (Settings.standard.tokens f).opener <:+: header)
    (hcloses : ¬ (Settings.standard.tokens f).closer <:+: header) :
    Lexed .standard [written f header] := by
  have hspace : Text.IsGap space := .inl rfl
  have hsolid := Settings.solid_standard
  have husable := Settings.usable_standard
  have hcloser : Text.Clear (Settings.standard.tokens f).closer (space :: (header ++ [space]))
      (Settings.standard.tokens f).closer := by
    have hheader := (Text.clear_iff_not_infix (husable.closer f) header).2 hcloses
    exact Text.Clear.append_cons (x := []) (hsolid.closer f) (husable.closer f) hspace trivial
      (hheader.append_cons (hsolid.closer f) (husable.closer f) hspace trivial)
  cases f with
  | generation => exact .generation hcloser .nil
  | edit =>
    refine .edit hcloser ?_ .nil
    have hne := husable.opener .generation
    have hsolid := hsolid.opener .generation
    have hheader := (Text.clear_iff_not_infix hne header).2 (hopens .generation)
    have hfront := (Text.clear_iff_not_infix hne (Settings.standard.tokens .edit).opener).2
      (by decide +kernel)
    have hback := (Text.clear_iff_not_infix hne (Settings.standard.tokens .edit).closer).2
      (by decide +kernel)
    have h := hfront.append_cons hsolid hne hspace (hheader.append_cons hsolid hne hspace hback)
    simpa [text, Settings.tokens] using h

/-- Lexed texts can be put together at a seam. -/
theorem Lexed.append_standard {ls ls' : List Lexeme} (h : Lexed .standard ls)
    (h' : Lexed .standard ls') (hseam : Text.Seam (textOf .standard ls) (textOf .standard ls')) :
    Lexed .standard (ls ++ ls') :=
  h.append (Settings.solid_standard.opener .generation) (Settings.solid_standard.opener .edit) h'
    hseam

/-- A line ends in front of lexemes. -/
theorem Lexed.newline_cons {ls : List Lexeme} (h : Lexed .standard ls) :
    Lexed .standard (Lexeme.byte newline :: ls) := by
  have hline : Lexed .standard (ofText [newline]) := lexed_ofText_iff.2 fun f =>
    Text.clear_of_isGap (Settings.solid_standard.opener f) (Settings.usable_standard.opener f)
      fun b hb => .inr (.inr (List.mem_singleton.1 hb))
  exact hline.append_standard h (.inr (.inr (.inl ⟨newline, rfl, .inr (.inr rfl)⟩)))

/-- **A printed marker stands between blanks**, and no token runs across them. -/
theorem Lexed.around_written {x : Text} {f : Family} {header : Text} {ls : List Lexeme}
    (hx : x.Plain .standard) (hgap : x = [] ∨ ∃ b ∈ x.getLast?, Text.IsGap b)
    (hmarker : Lexed .standard [written f header]) (hls : Lexed .standard ls)
    (hnext : ∃ b ∈ (textOf .standard ls).head?, Text.IsGap b) :
    Lexed .standard (ofText x ++ written f header :: ls) := by
  have hback : Lexed .standard ([written f header] ++ ls) :=
    hmarker.append_standard hls (.inr (.inr (.inr hnext)))
  refine (lexed_ofText_iff.2 hx).append_standard hback ?_
  rw [textOf_ofText]
  rcases hgap with hx | hgap
  · exact .inl hx
  · exact .inr (.inr (.inl hgap))

end Lexeme

namespace PlainLine

/-- A plain line is a plain text. -/
theorem plain (l : PlainLine) : l.text.Plain .standard :=
  (Text.plain_iff Settings.usable_standard).2 l.opens_nothing

/-- So is one with padding around it. -/
theorem plain_padded (l : PlainLine) : (Outline.padded l).Plain .standard := fun f =>
  Text.Clear.append_cons (x := []) (Settings.solid_standard.opener f)
    (Settings.usable_standard.opener f) (.inl rfl) trivial
    ((l.plain f).append_cons (Settings.solid_standard.opener f) (Settings.usable_standard.opener f)
      (.inl rfl) trivial)

end PlainLine

namespace Margin

/-- The bytes of a margin are blank. -/
theorem isGap (m : Margin) : ∀ b ∈ m.text, Text.IsGap b := fun b hb => .of_isIndent (m.isIndent b hb)

/-- A margin is a plain text. -/
theorem plain (m : Margin) : m.text.Plain .standard := fun f =>
  Text.clear_of_isGap (Settings.solid_standard.opener f) (Settings.usable_standard.opener f) m.isGap

/-- A margin ends in a blank. -/
theorem gap (m : Margin) : m.text = [] ∨ ∃ b ∈ m.text.getLast?, Text.IsGap b := by
  cases h : m.text.getLast? with
  | none => exact .inl (List.getLast?_eq_none_iff.1 h)
  | some b => exact .inr ⟨b, rfl, m.isGap b (List.mem_of_getLast? h)⟩

end Margin

namespace Heading

/-- The lexeme of the open marker. -/
def opening (h : Heading) : Lexeme := .written h.family h.text

/-- The lexeme of the end marker. -/
def ending (h : Heading) : Lexeme :=
  .written h.family (Settings.standard.tokens h.family).endWord

/-- The open marker is read as it is printed. -/
theorem lexed_opening (h : Heading) : Lexeme.Lexed .standard [h.opening] :=
  Lexeme.lexed_written h.opens_nothing h.closes_nothing

/-- The end marker is read as it is printed. -/
theorem lexed_ending (h : Heading) : Lexeme.Lexed .standard [h.ending] := by
  refine Lexeme.lexed_written (fun f => ?_) ?_
  · cases f <;> cases h.family <;> decide +kernel
  · cases h.family <;> decide +kernel

end Heading

namespace Outline

/-- The lexemes of a printed outline. -/
def lexemes : Outline → List Lexeme
  | nil => []
  | line text rest => Lexeme.ofText text.text ++ .byte newline :: rest.lexemes
  | leaf margin h body rest =>
    Lexeme.ofText margin.text ++ h.opening :: (Lexeme.ofText (padded body) ++
      h.ending :: .byte newline :: rest.lexemes)
  | block margin h inner endMargin rest =>
    Lexeme.ofText margin.text ++ h.opening :: .byte newline :: (inner.lexemes ++
      (Lexeme.ofText endMargin.text ++ h.ending :: .byte newline :: rest.lexemes))

/-- The lexemes make up the printed text. -/
@[simp] theorem textOf_lexemes (o : Outline) : Lexeme.textOf .standard o.lexemes = o.printed := by
  induction o with
  | nil => rfl
  | line text rest ih => simp [lexemes, printed, ih]
  | leaf margin h body rest ih =>
    simp [lexemes, printed, ih, Heading.opening, Heading.ending, Heading.opens, Heading.ends]
  | block margin h inner endMargin rest ihInner ihRest =>
    simp [lexemes, printed, ihInner, ihRest, Heading.opening, Heading.ending, Heading.opens,
      Heading.ends]

/-- **A printed outline falls into its lexemes.** -/
theorem lexed (o : Outline) : Lexeme.Lexed .standard o.lexemes := by
  have hnewline : Text.IsGap newline := .inr (.inr rfl)
  induction o with
  | nil => exact .nil
  | line text rest ih =>
    exact (Lexeme.lexed_ofText_iff.2 text.plain).append_standard ih.newline_cons
      (.inr (.inr (.inr ⟨newline, rfl, hnewline⟩)))
  | leaf margin h body rest ih =>
    have hend := Lexeme.Lexed.around_written body.plain_padded
      (.inr ⟨space, List.getLast?_concat, .inl rfl⟩) h.lexed_ending ih.newline_cons ⟨newline, rfl, hnewline⟩
    exact Lexeme.Lexed.around_written margin.plain margin.gap h.lexed_opening hend
      ⟨space, by simp [padded], .inl rfl⟩
  | block margin h inner endMargin rest ihInner ihRest =>
    have hend := Lexeme.Lexed.around_written endMargin.plain endMargin.gap h.lexed_ending
      ihRest.newline_cons ⟨newline, rfl, hnewline⟩
    have hinner := ihInner.append_standard hend (by
      rw [textOf_lexemes]
      rcases inner.whole_printed with hnil | hlast
      · exact .inl hnil
      · exact .inr (.inr (.inl ⟨newline, hlast, hnewline⟩)))
    exact Lexeme.Lexed.around_written margin.plain margin.gap h.lexed_opening hinner.newline_cons
      ⟨newline, rfl, hnewline⟩

end Outline

end Regen
