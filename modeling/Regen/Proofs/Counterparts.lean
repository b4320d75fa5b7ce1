import Mathlib.Data.List.Forall2
import Regen.Proofs.Carrying

/-!
# Markers that correspond

Pairing looks at three things only: whether a marker ends a block, to which family it belongs, and whether it
shares a line with another one. If the markers of two texts agree in these, those of the one text can be paired
if those of the other can, and each mark has a counterpart (`Outermost.exists_counterpart`). If edits have the
same names too (`Marker.Correspond`), then **the one text is read exactly if the other one is**
(`Document.exists_counterpart`, for a relation and the same relation turned around).

In contrast to markers that are carried into another text, corresponding ones need not have the same header.
-/

namespace Regen

open Pairing (onSameLine clashes)

/-- **A relation between the markers of two texts** under which they are read alike. -/
structure Marker.Correspond (t t' : Text) (R : Marker → Marker → Prop) : Prop where
  /-- Both end a block, or neither does. -/
  isEnd {m m' : Marker} : R m m' → m'.isEnd = m.isEnd
  /-- Both belong to one family. -/
  family {m m' : Marker} : R m m' → m'.family = m.family
  /-- They give an edit the same name. -/
  name {m m' : Marker} : R m m' → m.family = .edit → m'.name = m.name
  /-- Lines are shared alike. -/
  onSameLine {p p' m m' : Marker} : R p p' → R m m' → onSameLine t' p' m' = onSameLine t p m

/-- **Two blocks whose markers correspond.** -/
structure Block.Counterpart (R : Marker → Marker → Prop) (b b' : Block) : Prop where
  /-- The open markers correspond. -/
  opening : R b.opening b'.opening
  /-- The end markers correspond. -/
  ending : R b.ending b'.ending
  /-- They have the same layout. -/
  isInline : b'.isInline = b.isInline

/-- **Two marks of corresponding markers**: both open a block, or both end one. -/
inductive Mark.Counterpart (R : Marker → Marker → Prop) : Mark → Mark → Prop
  /-- Open marks of blocks that correspond. -/
  | opening {b b' : Block} : b.Counterpart R b' → Counterpart R (.opening b) (.opening b')
  /-- End marks of blocks that correspond. -/
  | ending {b b' : Block} : b.Counterpart R b' → Counterpart R (.ending b) (.ending b')

variable {t t' : Text} {R : Marker → Marker → Prop}

/-- The relation can be turned around. -/
theorem Marker.Correspond.flip (h : Correspond t t' R) : Correspond t' t (flip R) where
  isEnd hm := (h.isEnd hm).symm
  family hm := (h.family hm).symm
  name hm hedit := (h.name hm ((h.family hm).symm.trans hedit)).symm
  onSameLine hp hm := (h.onSameLine hp hm).symm

/-- Whether a marker clashes with the one in front of it can be told from their counterparts. -/
theorem Marker.Correspond.clashes (h : Correspond t t' R) {p p' m m' : Marker} (hp : R p p') (hm : R m m') :
    clashes (some p') m' = clashes (some p) m := by
  simp only [Pairing.clashes, h.isEnd hp, h.isEnd hm, h.family hp, h.family hm]

/-- A list that corresponds to two lists put together falls into two parts. -/
theorem exists_append_of_forall₂ {α β : Type} {r : α → β → Prop} {l₁ l₂ : List α} {l : List β}
    (h : List.Forall₂ r (l₁ ++ l₂) l) :
    ∃ l₁' l₂', l = l₁' ++ l₂' ∧ List.Forall₂ r l₁ l₁' ∧ List.Forall₂ r l₂ l₂' := by
  induction l₁ generalizing l with
  | nil => exact ⟨[], l, rfl, .nil, h⟩
  | cons a l₁ ih =>
    obtain _ | ⟨ha, h⟩ := h
    obtain ⟨l₁', l₂', rfl, h₁, h₂⟩ := ih h
    exact ⟨_ :: l₁', l₂', rfl, .cons ha h₁, h₂⟩

/-- What members of a list and their counterparts have in common is the same list. -/
theorem map_eq_map_of_forall₂ {α β γ : Type} {r : α → β → Prop} {f : α → γ} {g : β → γ} {l : List α}
    {l' : List β} (h : List.Forall₂ r l l') (hfg : ∀ a ∈ l, ∀ b ∈ l', r a b → g b = f a) :
    l'.map g = l.map f := by
  induction h with
  | nil => rfl
  | cons hab _ ih =>
    simp only [List.forall_mem_cons] at hfg
    rw [List.map_cons, List.map_cons, hfg.1.1 hab, ih fun a ha b hb => (hfg.2 a ha).2 b hb]

/-- **Marks inside a block have counterparts** if their markers have. -/
theorem Inside.exists_counterpart (hR : Marker.Correspond t t' R) {family : Family} {isInline : Bool}
    {depth : Nat} {p q p' : Marker} {marks : List Mark} {ms' : List Marker}
    (h : Inside t family isInline depth p marks q) (hp : R p p')
    (hms : List.Forall₂ R (marks.map Mark.marker) ms') :
    ∃ marks' q', marks'.map Mark.marker = ms' ∧ Inside t' family isInline depth p' marks' q' ∧ R q q' ∧
      List.Forall₂ (Mark.Counterpart R) marks marks' := by
  induction h generalizing p' ms' with
  | nil =>
    obtain _ | _ := hms
    exact ⟨[], p', rfl, .nil, hp, .nil⟩
  | @block family isInline depth p q r b inner rest hopens hends _ hline hinline hedit _ hclose
      hclash _ ihInner ihRest =>
    simp only [List.map_cons, List.map_append, Mark.marker] at hms
    obtain _ | @⟨_, opening', _, _, hopening, hms⟩ := hms
    obtain ⟨_, _, rfl, hinnerMs, hms⟩ := exists_append_of_forall₂ hms
    obtain _ | @⟨_, ending', _, _, hending, hrestMs⟩ := hms
    obtain ⟨inner', q', rfl, hinner', hq, hinnerMarks⟩ := ihInner hopening hinnerMs
    obtain ⟨rest', r', rfl, hrest', hr, hrestMarks⟩ := ihRest hending hrestMs
    have hencloses := Block.encloses_ofMarkers ((hR.isEnd hopening).trans hopens)
      ((hR.isEnd hending).trans hends) (by rwa [hR.family hopening])
      ((hR.onSameLine hq hending).trans hclose) ((hR.clashes hq hending).trans hclash)
    have hblock : b.Counterpart R (.ofMarkers t' opening' ending' depth b.isInline) :=
      ⟨by simpa, by simpa, by simp⟩
    refine ⟨_, r', ?_, Block.inside_ofMarkers hencloses ((hR.onSameLine hp hopening).trans hline) hinline
      (by rwa [hR.family hopening]) hrest', hr, .cons (.opening hblock) ?_⟩
    · simp [Mark.marker]
    · exact List.rel_append hinnerMarks (.cons (.ending hblock) hrestMarks)

/-- **Outermost marks have counterparts** likewise. -/
theorem Outermost.exists_counterpart (hR : Marker.Correspond t t' R) {previous? previous'? : Option Block}
    {marks : List Mark} {ms' : List Marker} (h : Outermost t previous? marks)
    (hprevious : Option.Rel (Block.Counterpart R) previous? previous'?)
    (hms : List.Forall₂ R (marks.map Mark.marker) ms') :
    ∃ marks', marks'.map Mark.marker = ms' ∧ Outermost t' previous'? marks' ∧
      List.Forall₂ (Mark.Counterpart R) marks marks' := by
  induction h generalizing previous'? ms' with
  | nil =>
    obtain _ | _ := hms
    exact ⟨[], rfl, .nil, .nil⟩
  | @block previous? b inner rest henclosed hfits _ ih =>
    obtain ⟨q, hinner, hclose, hclash⟩ := henclosed.layout
    simp only [List.map_cons, List.map_append, Mark.marker] at hms
    obtain _ | @⟨_, opening', _, _, hopening, hms⟩ := hms
    obtain ⟨_, _, rfl, hinnerMs, hms⟩ := exists_append_of_forall₂ hms
    obtain _ | @⟨_, ending', _, _, hending, hrestMs⟩ := hms
    obtain ⟨inner', q', rfl, hinner', hq, hinnerMarks⟩ := hinner.exists_counterpart hR hopening hinnerMs
    have hencloses : Encloses t' 1 (.ofMarkers t' opening' ending' 1 b.isInline) inner' :=
      Block.encloses_ofMarkers ((hR.isEnd hopening).trans henclosed.opens)
        ((hR.isEnd hending).trans henclosed.ends) (by rwa [hR.family hopening])
        ((hR.onSameLine hq hending).trans hclose) ((hR.clashes hq hending).trans hclash)
    have hblock : b.Counterpart R (.ofMarkers t' opening' ending' 1 b.isInline) :=
      ⟨by simpa, by simpa, by simp⟩
    obtain ⟨rest', rfl, hrest', hrestMarks⟩ := ih (.some hblock) hrestMs
    refine ⟨.opening _ :: (inner' ++ .ending _ :: rest'), by simp [Mark.marker], .block hencloses ?_ hrest',
      .cons (.opening hblock) (List.rel_append hinnerMarks (.cons (.ending hblock) hrestMarks))⟩
    intro a' ha' hsame
    obtain _ | _ := ha'
    obtain @⟨a, _, ha⟩ := hprevious
    rw [Block.ofMarkers_opening, hR.onSameLine ha.ending hopening] at hsame
    simpa [ha.isInline] using hfits a rfl hsame

/-- **The edit blocks among marks** correspond if the marks do. -/
theorem Document.editBlocks_counterpart (hR : Marker.Correspond t t' R) {marks marks' : List Mark}
    (h : List.Forall₂ (Mark.Counterpart R) marks marks') :
    List.Forall₂ (fun b b' => b.family = .edit ∧ b.Counterpart R b') (editBlocks marks) (editBlocks marks') := by
  induction h with
  | nil => exact .nil
  | @cons m m' marks marks' hm _ ih =>
    cases hm with
    | @opening b b' hb =>
      have hfamily : b'.family = b.family := hR.family hb.opening
      by_cases hedit : b.family = .edit
      · simpa [editBlocks, Mark.opened?, hfamily, hedit] using And.intro hb ih
      · simpa [editBlocks, Mark.opened?, hfamily, hedit] using ih
    | ending hb => exact ih

/-- **A text is read if another one is whose markers correspond**, and the marks then correspond. -/
theorem Document.exists_counterpart (hR : Marker.Correspond t t' R) {s : Settings} {d : Document}
    {ms' : List Marker} (hd : parse s t = .ok d) (hscan : Marker.scanAll t' s = .ok ms')
    (hms : List.Forall₂ R (d.marks.map Mark.marker) ms') :
    ∃ d', parse s t' = .ok d' ∧ List.Forall₂ (Mark.Counterpart R) d.marks d'.marks := by
  have husable := usable_of_parse hd
  have houter := outermost_of_parse hd
  have hnames := nodup_of_parse hd
  obtain ⟨marks', rfl, houter', hmarks⟩ := houter.exists_counterpart hR .none hms
  have hlexed := husable.scanAll_eq_ok_iff.1 hscan
  have hnames' : (editBlocks marks').map Block.name = (editBlocks d.marks).map Block.name :=
    map_eq_map_of_forall₂ (editBlocks_counterpart hR hmarks) fun b _ b' _ h => hR.name h.2.opening h.1
  exact ⟨⟨t', marks', (editBlocks marks').map ({ source := t', block := · })⟩,
    parse_eq_ok_iff.2 ⟨husable, hlexed, houter', hnames' ▸ hnames, rfl, rfl⟩, hmarks⟩

end Regen
