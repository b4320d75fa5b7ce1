import Regen.Proofs.Renewal

/-!
# Reading a regenerated text again

A document that is cut into cells (`Document.IsCut`) is regenerated cell by cell, and the text that
results is a document again (`Document.IsCut.refill`), if the new regions are lexed and fit, no header
changes, and the names of all edits are distinct afterwards. Its outermost blocks are those of the
document, renewed.
-/

namespace Regen

open Lexeme (ofText textOf markersFrom Lexed)
open Text (space newline)
open Pairing (onSameLine)

/-! ## Names of edits -/

namespace Document

/-- The edits of a block are the block itself, if it is one, and those inside it. -/
theorem map_name_editBlocks {b : Block} {inner rest : List Mark} (hopens : b.opening.isEnd = false)
    (hends : b.ending.isEnd = true)
    (hinner : (editBlocks inner).map Block.name = Marker.editNames (inner.map Mark.marker))
    (hrest : (editBlocks rest).map Block.name = Marker.editNames (rest.map Mark.marker)) :
    (editBlocks (.opening b :: (inner ++ .ending b :: rest))).map Block.name
      = Marker.editNames ((Mark.opening b :: (inner ++ .ending b :: rest)).map Mark.marker) := by
  have hblocks : editBlocks (.opening b :: (inner ++ .ending b :: rest))
      = [b].filter (·.family = .edit) ++ editBlocks inner ++ editBlocks rest := by
    have hblock : Mark.blocks (.opening b :: (inner ++ .ending b :: rest))
        = [b] ++ Mark.blocks inner ++ Mark.blocks rest := by simp
    rw [editBlocks, ← Mark.blocks, hblock, List.filter_append, List.filter_append]
    rfl
  have hopening : ([b].filter (·.family = .edit)).map Block.name = Marker.editNames [b.opening] := by
    by_cases hfamily : b.opening.family = .edit <;>
      simp [Marker.editNames, Block.family, Block.name, hopens, hfamily]
  rw [hblocks, Marker.editNames_block hends, List.map_append, List.map_append, hopening, hinner, hrest]

end Document

/-- The edits inside a block are those that the markers open. -/
theorem Inside.editNames {t : Text} {family : Family} {isInline : Bool} {depth : Nat} {p q : Marker}
    {marks : List Mark} (h : Inside t family isInline depth p marks q) :
    (Document.editBlocks marks).map Block.name = Marker.editNames (marks.map Mark.marker) := by
  induction h with
  | nil => rfl
  | block hopens hends _ _ _ _ _ _ _ _ ihInner ihRest =>
    exact Document.map_name_editBlocks hopens hends ihInner ihRest

/-- **The edits of a text are those that the markers open.** -/
theorem Outermost.editNames {t : Text} {previous? : Option Block} {marks : List Mark}
    (h : Outermost t previous? marks) :
    (Document.editBlocks marks).map Block.name = Marker.editNames (marks.map Mark.marker) := by
  induction h with
  | nil => rfl
  | block henclosed _ _ ih =>
    obtain ⟨q, hinner, -⟩ := henclosed.layout
    exact Document.map_name_editBlocks henclosed.opens henclosed.ends hinner.editNames ih

namespace Document

variable {s : Settings} {t : Text} {d : Document}

/-- The names of the edits of a document are those that its markers open. -/
theorem edits_map_name (hd : parse s t = .ok d) :
    d.edits.map EditBlock.name = Marker.editNames (d.marks.map Mark.marker) := by
  have houter := outermost_of_parse hd
  have hedits := edits_of_parse hd
  rw [hedits, ← houter.editNames, List.map_map]
  rfl

/-! ## Cutting and refilling -/

/-- **A document that is cut into cells**, with what stands behind the last of them. -/
structure IsCut (s : Settings) (d : Document) (cells : List Cell) (tail : Text) : Prop where
  /-- The cells make up the text. -/
  source : d.source = textOf s (cells.flatMap Cell.lexemes) ++ tail
  /-- They are what the text is lexed to. -/
  lexed : Lexed s (cells.flatMap Cell.lexemes ++ ofText tail)
  /-- They hold the blocks and the marks of the document. -/
  cut : Cut s d.source [] none cells d.marks

/-- **A document whose spans are apart is cut into cells.** -/
theorem exists_isCut (hd : parse s t = .ok d) (hopener : ∀ f, newline ∉ (s.tokens f).opener)
    (hapart : Mark.SpansApart d.marks) : ∃ cells tail, d.IsCut s cells tail := by
  obtain ⟨husable, ⟨ls, hlexed, htext, hread⟩, houter, -, hsource, -⟩ := parse_eq_ok_iff.1 hd
  obtain ⟨cells, tail, rfl, hcut⟩ := exists_cut hopener husable.closer houter
    (show t = [] ++ textOf s ls by rw [htext, List.nil_append]) hread hapart
  exact ⟨cells, tail, by rw [hsource, ← htext]; simp, hlexed, by rwa [hsource]⟩

namespace IsCut

variable {cells cells' : List Cell} {tail : Text} {cs : List (Option Text)}

/-- **Regeneration gives every cell of a document a new region.** -/
theorem patch_eq (h : d.IsCut s cells tail) (hrefilled : Refilled s cells d.outermost cs cells') :
    d.source.patch 0 (List.zipWith (Block.patched false) d.outermost cs)
      = textOf s (cells'.flatMap Cell.lexemes) ++ tail := by
  have hcelled : Celled s ([] ++ []) cells d.outermost := h.cut.celled
  exact hcelled.patch_eq (by simpa using h.source) hrefilled

/-- **A regenerated document is read again**, cut into the new cells, and its outermost blocks are those
that were there, renewed. -/
theorem refill (h : d.IsCut s cells tail) (hd : parse s t = .ok d)
    (hsolid : ∀ f, Text.Solid (s.tokens f).opener) (hsteady : Mark.Steady d.source none d.outermost)
    (hrefilled : Refilled s cells d.outermost cs cells') (hregions : ∀ c ∈ cells', Lexed s c.region)
    {names : List Text} (hfitted : Fitted s d.outermost cells' names) (hnames : names.Nodup) :
    ∃ d', parse s (d.source.patch 0 (List.zipWith (Block.patched false) d.outermost cs)) = .ok d' ∧
      d'.IsCut s cells' tail ∧
      List.Forall₂ (fun p b' => p.1.Renewed p.2 b') (d.outermost.zip cs) d'.outermost ∧
      d'.edits.map EditBlock.name = names ∧
      (d.outermost.IsChain (fun a b => onSameLine d.source a.ending b.opening = false) →
        d'.outermost.IsChain fun a b => onSameLine d'.source a.ending b.opening = false) := by
  have husable := usable_of_parse hd
  have hopener : ∀ f, (s.tokens f).opener ≠ [] ∧ newline ∉ (s.tokens f).opener :=
    fun f => ⟨husable.opener f, (hsolid f).newline_notMem⟩
  obtain ⟨marks', hcut', hrenewed, hnames', hchain⟩ := h.cut.refill hopener husable.closer
    (by simpa using h.source) hsteady hrefilled hfitted
    (show textOf s (cells'.flatMap Cell.lexemes) ++ tail = [] ++ _ ++ _ by rw [List.nil_append]) .start
  have hlexed' : Lexed s ([] ++ cells'.flatMap Cell.lexemes ++ ofText tail) :=
    hrefilled.lexed hsolid h.cut.celled hregions h.lexed
  rw [h.patch_eq hrefilled]
  refine ⟨⟨_, marks', (editBlocks marks').map ({ source := _, block := · })⟩,
    parse_eq_ok_iff.2 ⟨husable, ⟨_, hlexed', by simp, ?_⟩, hcut'.outermost, ?_, rfl, rfl⟩,
    ⟨rfl, hlexed', hcut'⟩, hrenewed, ?_, hchain⟩
  · exact hcut'.markersFrom (fun f => (hopener f).2) husable.closer tail
  · rwa [hcut'.outermost.editNames, hnames']
  · rw [← hnames', ← hcut'.outermost.editNames, List.map_map]
    rfl

end IsCut

end Document

end Regen
