import Regen.Proofs.Reading
import Regen.Pool

/-!
# Finding edits again

A generation looks up edits by name. The names of the edits of one document are distinct, so what is
found under the name of an edit is that edit (`Pool.content_of_mem`), and edits that are put in front of
others of the same names hide them altogether (`Edits.union_eq_right`). A generation that succeeds asks
for every edit that must not be lost (`Edits.checkClaimed_eq_ok_iff`).
-/

namespace Regen

namespace Edits

/-- The edit that is found under a name has that name. -/
theorem get?_of_mem {edits : Edits} (hnodup : (edits.map EditBlock.name).Nodup) {e : EditBlock}
    (he : e ∈ edits) : edits.get? e.name = some e := by
  induction edits with
  | nil => cases he
  | cons e' edits ih =>
    rw [List.map_cons, List.nodup_cons] at hnodup
    rw [get?, List.find?_cons]
    rcases List.mem_cons.1 he with rfl | he
    · simp
    · have hne : e'.name ≠ e.name := fun h => hnodup.1 (h ▸ List.mem_map_of_mem he)
      rw [beq_eq_false_iff_ne.2 hne]
      exact ih hnodup.2 he

/-- There is an edit of a name if the name is among the names. -/
theorem get?_isSome_iff {edits : Edits} {name : Text} :
    (edits.get? name).isSome ↔ name ∈ edits.map EditBlock.name := by
  simp [get?, List.find?_isSome]

/-- Nothing comes in the place of edits if there are no later ones. -/
@[simp] theorem union_nil (edits : Edits) : edits.union [] = edits := by
  simp [union, get?]

/-- **Later edits take the place of all edits** if they have all of their names. -/
theorem union_eq_right {edits later : Edits}
    (h : ∀ e ∈ edits, e.name ∈ later.map EditBlock.name) : edits.union later = later := by
  have hnone : edits.filter (fun e => (later.get? e.name).isNone) = [] := by
    rw [List.filter_eq_nil_iff]
    intro e he
    have hsome := get?_isSome_iff.2 (h e he)
    rw [← Option.not_isSome, hsome]
    decide
  rw [union, hnone, List.nil_append]

/-- What every step of a fold answers, the fold answers. -/
theorem isSome_foldl {α β : Type} {f : Option α → β → Option α} (hf : ∀ o b, (f o b).isSome)
    {o : Option α} (ho : o.isSome) (bs : List β) : (bs.foldl f o).isSome := by
  induction bs generalizing o with
  | nil => exact ho
  | cons b bs ih => exact ih (hf o b)

/-- There is no first edit only where there are none. -/
theorem first?_eq_none_iff {edits : Edits} : first? edits = none ↔ edits = [] := by
  cases edits with
  | nil => simp [first?]
  | cons e edits =>
    refine iff_of_false (fun h => ?_) (List.cons_ne_nil e edits)
    rw [← Option.not_isSome_iff_eq_none] at h
    refine h (isSome_foldl (fun best? e' => ?_) rfl edits)
    cases best? with
    | none => rfl
    | some best =>
      dsimp only
      split <;> rfl

/-- The first edit of a list is one of them. -/
theorem mem_of_first? {edits : Edits} {e : EditBlock} (h : first? edits = some e) : e ∈ edits := by
  refine List.foldlRecOn (motive := fun best? => ∀ e, best? = some e → e ∈ edits) edits _ (by simp) ?_ e h
  intro best? hbest e' he' a ha
  cases best? with
  | none =>
    cases ha
    exact he'
  | some best =>
    dsimp only at ha
    split at ha
    · cases ha
      exact he'
    · exact hbest a ha

/-- **No edit is lost** exactly if all that must not be lost have been asked for. -/
theorem checkClaimed_eq_ok_iff {edits : Edits} {claimed : List Text} :
    edits.checkClaimed claimed = .ok () ↔
      ∀ e ∈ edits, e.mayBeLost = false → e.name ∈ claimed := by
  have hnone : edits.filter (fun e => !e.mayBeLost && decide (e.name ∉ claimed)) = [] ↔
      ∀ e ∈ edits, e.mayBeLost = false → e.name ∈ claimed := by
    simp [List.filter_eq_nil_iff]
  rw [← hnone, ← first?_eq_none_iff, checkClaimed]
  cases first? _ with
  | none => simp
  | some e => simp [failAt, fail]

end Edits

/-- In a single layer, what is found under the name of an edit is its body. -/
theorem Pool.content_of_mem {edits : Edits} (hnodup : (edits.map EditBlock.name).Nodup)
    {e : EditBlock} (he : e ∈ edits) : Pool.content [edits] e.name = e.content := by
  simp [content, find?, Edits.get?_of_mem hnodup he]

/-- The edits of a document are its edit blocks, as they stand in the text. -/
theorem Document.mem_edits_iff {s : Settings} {t : Text} {d : Document} (hd : parse s t = .ok d)
    {e : EditBlock} :
    e ∈ d.edits ↔ ∃ b ∈ d.blocks, b.family = .edit ∧ e = { source := t, block := b } := by
  have hedits := edits_of_parse hd
  rw [hedits]
  simp [editBlocks, blocks, and_assoc, eq_comm]

/-- The names of the edits of a document are distinct. -/
theorem Document.nodup_edits {s : Settings} {t : Text} {d : Document} (hd : parse s t = .ok d) :
    (d.edits.map EditBlock.name).Nodup := by
  have hnodup := nodup_of_parse hd
  have hedits := edits_of_parse hd
  rw [hedits, List.map_map]
  exact hnodup

/-- **In the edits of a document, what is found under the name of an edit block is its body.** -/
theorem Document.content_of_mem_blocks {s : Settings} {t : Text} {d : Document}
    (hd : parse s t = .ok d) {b : Block} (hb : b ∈ d.blocks) (hfamily : b.family = .edit) :
    Pool.content [d.edits] b.name = b.content := by
  have hmem := (mem_edits_iff hd).2 ⟨b, hb, hfamily, rfl⟩
  have hcontent := Pool.content_of_mem (nodup_edits hd) hmem
  have hname : EditBlock.name { source := t, block := b } = b.name := rfl
  have hbody : EditBlock.content { source := t, block := b } = b.content := by
    simp [EditBlock.content]
  rw [← hname, hcontent, hbody]

end Regen
