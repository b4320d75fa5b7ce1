import Regen.Proofs.Cells

/-!
# Cells with new regions

A new region never touches a marker. It is set off by blanks: an inline one begins and ends with a
space, and one of whole lines lies between two line feeds. So if openers hold no blanks, a text whose
cells are given new regions is lexed as before outside of the regions (`Refilled.lexed`).
-/

namespace Regen

open Lexeme (ofText textOf text read? markersFrom Lexed)
open Text (space newline Seam Solid IsGap)

/-! ## Seams -/

theorem isGap_space : IsGap space := .inl rfl

theorem isGap_newline : IsGap newline := .inr (.inr rfl)

/-- **The parts of a rewritten body**: a new region goes between the front and the back that were
there before. -/
theorem Parted.rewritten {b : Block} {front region back body : Text}
    (h : Parted b.isInline front region back body) (content? : Option Text) :
    Parted b.isInline front (b.rewritten [space] content?) back
      (if b.isInline then content?.getD []
        else content?.elim [] (Text.indent b.opening.bodyIndent)) := by
  unfold Block.rewritten
  generalize hinline : b.isInline = isInline at h ⊢
  cases h with
  | bare => exact .padded (by simp) (by simp)
  | single hfront hback => exact .padded hfront hback
  | padded hfront hback => exact .padded hfront hback
  | empty hfront hback =>
    cases content? with
    | none => exact .empty hfront hback
    | some content =>
      simp only [Bool.false_eq_true, ite_false, ← Text.indent_eq_ofLines, Option.elim]
      exact .lines hfront hback
  | lines hfront hback =>
    cases content? with
    | none => exact .empty hfront hback
    | some content =>
      simp only [Bool.false_eq_true, ite_false, ← Text.indent_eq_ofLines, Option.elim]
      exact .lines hfront hback

/-- The front of a body of whole lines ends in a line feed. -/
theorem Parted.front_of_lines {front region back body : Text}
    (h : Parted false front region back body) :
    newline ∉ back ∧ ∃ line, front = line ++ [newline] := by
  cases h with
  | empty _ hback => exact ⟨hback, _, rfl⟩
  | lines _ hback => exact ⟨hback, _, rfl⟩

/-- There is a seam in front of a rewritten body and one behind it. -/
theorem Parted.seams {b : Block} {front region back body : Text}
    (h : Parted b.isInline front region back body) (content? : Option Text) (x y : Text) :
    Seam (x ++ front) (b.rewritten [space] content? ++ y) ∧
      Seam (b.rewritten [space] content?) y := by
  cases hinline : b.isInline with
  | true =>
    have htext : b.rewritten [space] content? = [space] ++ content?.getD [] ++ [space] := by
      simp [Block.rewritten, hinline]
    rw [htext]
    exact ⟨.inr (.inr (.inr ⟨space, by simp, isGap_space⟩)),
      .inr (.inr (.inl ⟨space, by simp [List.getLast?_cons], isGap_space⟩))⟩
  | false =>
    rw [hinline] at h
    obtain ⟨-, line, rfl⟩ := h.front_of_lines
    refine ⟨.inr (.inr (.inl ⟨newline, by simp, isGap_newline⟩)), ?_⟩
    unfold Block.rewritten
    rw [if_neg (by simp [hinline])]
    cases content? with
    | none => exact .inl rfl
    | some content => exact .inr (.inr (.inl ⟨newline, by simp, isGap_newline⟩))

/-- **A text with new regions is lexed** if the regions are. -/
theorem Refilled.lexed {s : Settings} {pre : Text} {cells cells' : List Cell} {bs : List Block}
    {cs : List (Option Text)} {rest tail : List Lexeme} (hsolid : ∀ f, Solid (s.tokens f).opener)
    (hcelled : Celled s pre cells bs) (h : Refilled s cells bs cs cells')
    (hregions : ∀ c ∈ cells', Lexed s c.region)
    (hlexed : Lexed s (rest ++ cells.flatMap Cell.lexemes ++ tail)) :
    Lexed s (rest ++ cells'.flatMap Cell.lexemes ++ tail) := by
  induction h generalizing pre rest with
  | nil => exact hlexed
  | @cons c b content? region cells cells' bs cs htext _ ih =>
    obtain _ | ⟨hholds, hcelled⟩ := hcelled
    obtain ⟨hregion, hregions⟩ := List.forall_mem_cons.1 hregions
    have hfront : Lexed s (rest ++ c.head) := by
      have hparts : Lexed s ((rest ++ c.head) ++
          (c.region ++ c.foot ++ cells.flatMap Cell.lexemes ++ tail)) := by
        simpa [Cell.lexemes] using hlexed
      exact hparts.of_append_left
    have hback : Lexed s (c.foot ++ cells'.flatMap Cell.lexemes ++ tail) := by
      have hparts : Lexed s ((rest ++ c.head ++ c.region) ++
          (c.foot ++ cells.flatMap Cell.lexemes ++ tail)) := by
        simpa [Cell.lexemes] using hlexed
      exact ih hcelled hregions hparts.of_append_right
    have hseams := hholds.parted.seams content?
    have hmiddle : Lexed s (region ++ (c.foot ++ cells'.flatMap Cell.lexemes ++ tail)) := by
      refine hregion.append (hsolid .generation) (hsolid .edit) hback ?_
      rw [htext]
      exact (hseams [] _).2
    have hall := hfront.append (hsolid .generation) (hsolid .edit) hmiddle ?_
    · simpa [Cell.lexemes, Cell.head, Cell.foot] using hall
    · rw [Lexeme.textOf_append s region, htext]
      have hseam := (hseams (textOf s rest ++ c.gap ++ text s (.marker c.openFamily c.openRaw))
        (textOf s (c.foot ++ cells'.flatMap Cell.lexemes ++ tail))).1
      simpa [Cell.head] using hseam

end Regen
