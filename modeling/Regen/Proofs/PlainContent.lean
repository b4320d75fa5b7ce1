import Regen.Proofs.Rereading
import Regen.Proofs.Recovery
import Regen.Proofs.Resolution

/-!
# Plain contents

A content without markers fits into every block. What is written for it can be taken out again, with one
exception: a line feed at its end is dropped when it is resolved. So an edit whose body is plain has
that body again after it was written back if and only if the body does not end in a line feed
(`Block.Renewed.content_eq_iff`).
-/

namespace Regen

open Lexeme (ofText textOf markersFrom Lexed)
open Text (space newline)

/-! ## Taking out what was written -/

/-- Nothing is dropped exactly where no line feed is at the end. -/
theorem Run.dropFinalNewline_eq_self_iff (t : Text) :
    dropFinalNewline t = t ↔ t.getLast? ≠ some newline := by
  unfold dropFinalNewline
  split
  · rename_i h
    refine iff_of_false (fun heq => ?_) (not_not.2 h)
    cases t with
    | nil => cases h
    | cons b t => simpa using congrArg List.length heq
  · rename_i h
    exact iff_of_true rfl h

/-- Bodies are indented no further than to the opener. -/
theorem Marker.bodyColumn_le_column (m : Marker) : m.bodyColumn ≤ m.column := by
  unfold bodyColumn column
  split
  · exact le_rfl
  · refine (List.length_dropWhile_le _ _).trans ((List.length_dropWhile_le _ _).trans ?_)
    rw [List.length_reverse]

/-- The margin is as wide as the body is indented. -/
theorem Marker.length_bodyIndent (m : Marker) : m.bodyIndent.length = m.bodyColumn := by
  have hle : m.bodyColumn ≤ m.lead.length := m.bodyColumn_le_column
  simp [bodyIndent, margin, hle]

/-- **Taking the margin of a body off undoes putting it in front**, of every line of a text. -/
theorem Marker.dedent_indent_bodyIndent (m : Marker) (t : Text) :
    Text.dedent m.bodyColumn (Text.indent m.bodyIndent t) = t := by
  rw [← m.length_bodyIndent]
  exact Text.dedent_indent (fun _ hb => m.isIndent_of_mem_bodyIndent hb) t

/-- Nothing is taken off in front of the first column. -/
theorem Text.dedent_zero (t : Text) : dedent 0 t = t := by
  have hid : (lines t).map (dedentLine 0) = (lines t).map id :=
    List.map_congr_left fun line _ => by simp [dedentLine]
  rw [dedent, hid, List.map_id, ofLines_lines]

namespace Block

variable {b b' : Block} {content? : Option Text}

/-- **A content that was written is taken out again**, but for an empty one where it leaves no trace:
between the spaces of an inline block, or at the very start of lines. -/
theorem Renewed.content (h : b.Renewed content? b') :
    b'.content = if content? = some [] ∧ (b.isInline = true ∨ b.opening.bodyColumn = 0) then none
      else content? := by
  have hbody := h.body
  rw [Block.content, h.isInline]
  cases hinline : b.isInline with
  | true =>
    rw [if_pos hinline] at hbody
    rw [hbody]
    rcases content? with _ | _ | ⟨c, x⟩ <;> simp
  | false =>
    rw [if_neg (by simp [hinline])] at hbody
    rw [hbody]
    cases content? with
    | none => simp
    | some x =>
      have hnil : (Text.indent b.opening.bodyIndent x).isEmpty ↔
          some x = some [] ∧ (false = true ∨ b.opening.bodyColumn = 0) := by
        rw [List.isEmpty_iff, Text.indent, List.append_eq_nil_iff, ← Text.hang,
          Text.hang_eq_nil_iff, ← List.length_eq_zero_iff, Marker.length_bodyIndent]
        simp [and_comm]
      have hcolumn := h.opening.bodyColumn (h.lead hinline)
      simp only [Option.elim_some, hnil, hcolumn, Marker.dedent_indent_bodyIndent, Bool.false_eq_true,
        ite_false]

/-- Only lines that are indented can leave an empty content. -/
theorem isInline_of_content_eq_nil (h : b.content = some []) :
    ¬ (b.isInline = true ∨ b.opening.bodyColumn = 0) := by
  unfold content at h
  split at h
  · cases h
  · rename_i hbody
    rw [List.isEmpty_iff] at hbody
    split at h
    · exact absurd (Option.some.inj h) hbody
    · rename_i hinline
      rintro (hinline' | hcolumn)
      · exact hinline hinline'
      · rw [hcolumn, Text.dedent_zero] at h
        exact hbody (Option.some.inj h)

/-- **A body comes back as it was** after it has been resolved and written, unless it ends in a line
feed, which it loses. -/
theorem Renewed.content_eq_iff (h : b.Renewed (b.content.map Run.dropFinalNewline) b') :
    b'.content = b.content ↔ ∀ x ∈ b.content, x.getLast? ≠ some newline := by
  rw [h.content]
  cases hcontent : b.content with
  | none => simp
  | some x =>
    rw [Option.map_some]
    simp only [Option.mem_def, Option.some.injEq, forall_eq', ← Run.dropFinalNewline_eq_self_iff]
    split
    · rename_i hempty
      refine iff_of_false (by simp) fun hx => ?_
      rw [hempty.1] at hx
      exact isInline_of_content_eq_nil (hcontent.trans (congrArg some hx.symm)) hempty.2
    · rw [Option.some.injEq]

end Block

/-! ## Cells with plain contents -/

/-- The body stands in the region. -/
theorem Parted.exists_eq {isInline : Bool} {front region back body : Text}
    (h : Parted isInline front region back body) : ∃ x z, region = x ++ body ++ z := by
  cases h with
  | bare => exact ⟨[], [], by simp⟩
  | single => exact ⟨[space], [], by simp⟩
  | padded => exact ⟨[space], [space], by simp⟩
  | empty => exact ⟨[], [], by simp⟩
  | lines => exact ⟨[], [newline], by simp⟩

variable {s : Settings}

/-- A part of a plain text is plain. -/
theorem Text.Plain.of_append {x y z : Text} (h : (x ++ y ++ z).Plain s) : y.Plain s := fun f => by
  have hy := ((Text.clear_append ..).1 ((Text.clear_append ..).1 (h f)).1).2
  exact (show Clear _ y ([] ++ z) from by simpa using hy).of_append

/-- **A block in a plain region has a plain content.** -/
theorem Cell.Holds.plain_content {pre w : Text} {c : Cell} {b : Block} (h : c.Holds s pre b)
    (husable : Document.Usable s) (hsolid : ∀ f, Text.Solid (s.tokens f).opener)
    (hregion : c.region = ofText w) (hw : w.Plain s) : ∀ x ∈ b.content, x.Plain s := by
  obtain ⟨x, z, hbody⟩ := h.parted.exists_eq
  rw [hregion, Lexeme.textOf_ofText] at hbody
  have hplain : b.body.Plain s := (hbody ▸ hw).of_append
  intro content hcontent
  unfold Block.content at hcontent
  split at hcontent
  · cases hcontent
  · split at hcontent
    · cases hcontent
      exact hplain
    · cases hcontent
      exact fun f => (hplain f).dedent (hsolid f) (husable.opener f) _

/-- What is written for a plain content is plain, if blanks are put around it. -/
theorem Block.plain_rewritten {b : Block} {padding : Text} {content? : Option Text} (husable : Document.Usable s)
    (hsolid : ∀ f, Text.Solid (s.tokens f).opener) (hpadding : ∀ c ∈ padding, Text.IsGap c)
    (h : ∀ x ∈ content?, x.Plain s) : (b.rewritten padding content?).Plain s := by
  intro f
  have hgap : ∀ {x : Text} (y : Text), (∀ c ∈ x, Text.IsGap c) → Text.Clear (s.tokens f).opener x y :=
    fun y hx => Text.clear_of_isGap (hsolid f) (husable.opener f) hx
  unfold rewritten
  split
  · have hcontent : Text.Clear (s.tokens f).opener (content?.getD []) [] := by
      cases content? with
      | none => trivial
      | some x => exact h x rfl f
    have hseam : Text.Seam (content?.getD [] ++ []) padding := by
      cases padding with
      | nil => exact .inr (.inl rfl)
      | cons c padding => exact .inr (.inr (.inr ⟨c, rfl, hpadding c (by simp)⟩))
    have hmiddle : Text.Clear (s.tokens f).opener (content?.getD []) ([] ++ padding) :=
      hcontent.append_of_seam (hsolid f) hseam
    rw [Text.clear_append, Text.clear_append, List.append_nil]
    exact ⟨⟨hgap _ hpadding, hmiddle⟩, hgap _ hpadding⟩
  · cases content? with
    | none => trivial
    | some x =>
      have hindent := (h x rfl f).indent (hsolid f) (husable.opener f) fun c hc =>
        b.opening.isIndent_of_mem_bodyIndent hc
      have hseam : Text.Seam (Text.indent b.opening.bodyIndent x ++ []) [newline] :=
        .inr (.inr (.inr ⟨newline, rfl, isGap_newline⟩))
      have hlines : Text.Clear (s.tokens f).opener (Text.indent b.opening.bodyIndent x)
          ([] ++ [newline]) := hindent.append_of_seam (hsolid f) hseam
      dsimp only
      rw [← Text.indent_eq_ofLines, Text.clear_append]
      exact ⟨hlines, hgap _ (by simpa using isGap_newline)⟩

/-- A plain text stays plain without the line feed at its end. -/
theorem Text.Plain.dropFinalNewline {t : Text} (h : t.Plain s) :
    (Run.dropFinalNewline t).Plain s := by
  unfold Run.dropFinalNewline
  split
  · rename_i hlast
    have ht : [] ++ t.dropLast ++ [newline] = t := List.dropLast_append_getLast? newline hlast
    rw [← ht] at h
    exact h.of_append
  · exact h

/-- The regions of a text that is lexed are lexed. -/
theorem Lexeme.Lexed.regions {rest tail : List Lexeme} {cells : List Cell}
    (h : Lexed s (rest ++ cells.flatMap Cell.lexemes ++ tail)) : ∀ c ∈ cells, Lexed s c.region := by
  intro c hc
  obtain ⟨xs, ys, rfl⟩ := List.append_of_mem hc
  have hparts : Lexed s ((rest ++ xs.flatMap Cell.lexemes ++ c.head) ++
      (c.region ++ (c.foot ++ ys.flatMap Cell.lexemes ++ tail))) := by
    simpa [Cell.lexemes] using h
  exact hparts.of_append_right.of_append_left

/-- **Where no block encloses another**, all bodies are plain. -/
theorem Cut.plain_content {t pre : Text} {previous? : Option Block} {cells : List Cell}
    {marks : List Mark} (h : Cut s t pre previous? cells marks) (husable : Document.Usable s)
    (hsolid : ∀ f, Text.Solid (s.tokens f).opener) (hflat : ∀ b ∈ Mark.blocks marks, b.depth = 1)
    (hregions : ∀ c ∈ cells, Lexed s c.region) :
    ∀ b ∈ Mark.outermost marks, ∀ x ∈ b.content, x.Plain s := by
  induction h with
  | nil => simp [Mark.outermost]
  | @cons pre previous? c b cells inner rest hholds hread henclosed _ _ ih =>
    obtain ⟨hregion, hregions⟩ := List.forall_mem_cons.1 hregions
    obtain rfl := henclosed.eq_nil fun c hc => hflat c (by simp [hc])
    obtain ⟨w, hw⟩ := Lexeme.eq_ofText_of_markersFrom hread
    rw [Mark.outermost_block henclosed, List.forall_mem_cons]
    refine ⟨hholds.plain_content husable hsolid hw ?_, ih (fun c hc => hflat c (by simp [hc])) hregions⟩
    exact Lexeme.lexed_ofText_iff.1 (hw ▸ hregion)

/-- **A content without markers fits** into every block of one family, if it is on one line where it has
to. -/
theorem Fits.rewritten {b : Block} {content? : Option Text}
    (hfamily : b.opening.family = b.ending.family)
    (hline : b.isInline = true → newline ∉ content?.getD []) :
    Fits s b (Lexeme.ofText (b.rewritten [space] content?)) [] := by
  refine .ofText hfamily fun hinline => ?_
  have hcontent := hline hinline
  have hspace : newline ≠ space := by decide
  simpa [Block.rewritten, hinline, hspace] using hcontent

/-- **Plain contents can be written** into all cells. The regions are lexed, and they fit. -/
theorem Celled.exists_refilled {pre : Text} {cells : List Cell} {bs : List Block}
    {cs : List (Option Text)} (h : Celled s pre cells bs) (husable : Document.Usable s)
    (hsolid : ∀ f, Text.Solid (s.tokens f).opener)
    (hfamily : ∀ b ∈ bs, b.opening.family = b.ending.family) (hlength : cs.length = bs.length)
    (hplain : ∀ p ∈ bs.zip cs, ∀ x ∈ p.2, x.Plain s)
    (hline : ∀ p ∈ bs.zip cs, p.1.isInline → newline ∉ p.2.getD []) :
    ∃ cells', Refilled s cells bs cs cells' ∧ (∀ c ∈ cells', Lexed s c.region) ∧
      Fitted s bs cells' (Marker.editNames (bs.map Block.opening)) := by
  induction h generalizing cs with
  | nil =>
    obtain rfl := List.eq_nil_of_length_eq_zero hlength
    exact ⟨[], .nil, by simp, .nil⟩
  | @cons pre c b cells bs _ _ ih =>
    obtain ⟨content?, cs, rfl⟩ := List.exists_cons_of_length_eq_add_one hlength
    rw [List.zip_cons_cons, List.forall_mem_cons] at hplain hline
    rw [List.forall_mem_cons] at hfamily
    obtain ⟨cells', hrefilled, hlexed, hfitted⟩ :=
      ih hfamily.2 (by simpa using hlength) hplain.2 hline.2
    refine ⟨{ c with region := ofText (b.rewritten [space] content?) } :: cells',
      .cons (Lexeme.textOf_ofText ..) hrefilled, ?_, ?_⟩
    · rw [List.forall_mem_cons]
      exact ⟨Lexeme.lexed_ofText_iff.2
        (Block.plain_rewritten husable hsolid (by simpa using isGap_space) hplain.1), hlexed⟩
    · have hcons := Fitted.cons (c := { c with region := ofText (b.rewritten [space] content?) })
        (.rewritten hfamily.1 hline.1) hfitted
      rwa [List.append_nil, ← Marker.editNames_append] at hcons

end Regen
