import Mathlib.Data.List.Nodup
import Mathlib.Data.Set.Function
import Regen.Proofs.Pairs
import Regen.Proofs.Recovery

/-!
# The blocks of a document, seen in several ways

A document shows its blocks in several ways: as pairs in the list of its markers, as the list of its
generation blocks, as its edits by name, and as one list of all blocks. The last is put together from the
others: for each open marker in turn the next generation block is taken, or the edit that has the name in the
header, and a marker for which there is nothing is passed over (`Document.merged`).

Nothing is ever passed over. Every open marker has a partner, so it has a block, and the names of the edits are
distinct at whatever depth they stand, so that under each of them its own edit is found
(`Document.Coherent`). **A text is read with coherent views, or it is rejected at the first edit whose name
stands in front of it already** (`Document.coherent_or_duplicate`).
-/

namespace Regen

namespace Marker

/-- The open ones among some markers. -/
def openings (ms : List Marker) : List Marker := ms.filter (!·.isEnd)

/-- The open markers of a family among some markers. -/
def openingsOf (f : Family) (ms : List Marker) : List Marker := (openings ms).filter (·.family = f)

end Marker

namespace Document

/-- The markers, in the order of their openers. -/
def markers (d : Document) : List Marker := d.marks.map Mark.marker

/-- The open marker at a place with the marker it is paired with. -/
def pairAt? (d : Document) (i : Nat) : Option (Marker × Marker) := do
  let opening ← d.markers[i]?
  let j ← d.partner? i
  let ending ← d.markers[j]?
  if opening.isEnd then none else some (opening, ending)

/-- All pairs, in the order of the open markers. -/
def pairs (d : Document) : List (Marker × Marker) := (List.range d.markers.length).filterMap d.pairAt?

/-- The generation blocks, in order. -/
def generationBlocks (d : Document) : List Block := d.blocks.filter (·.family = .generation)

/-- The blocks of some open markers. For a generation marker it is the next of the generation blocks that are
left, and for an edit marker the edit of its name. Markers for which there is none are passed over. -/
def merged (edits : Edits) : (generation : List Block) → (openings : List Marker) → List Block
  | _, [] => []
  | generation, m :: rest =>
    match m.family, generation with
    | .generation, b :: generation => b :: merged edits generation rest
    | .generation, [] => merged edits [] rest
    | .edit, generation =>
      match edits.get? m.name with
      | some e => e.block :: merged edits generation rest
      | none => merged edits generation rest

/-- **The views of a document agree.** -/
structure Coherent (d : Document) : Prop where
  /-- There is one block for each open marker, in the same order. -/
  openings : d.blocks.map Block.opening = Marker.openings d.markers
  /-- The blocks are the pairs of markers. -/
  pairs : d.pairs = d.blocks.map fun b => (b.opening, b.ending)
  /-- Putting the blocks together from the generation blocks and the edits by name misses none. -/
  merged : merged d.edits d.generationBlocks (Marker.openings d.markers) = d.blocks
  /-- The generation blocks are those of the open generation markers, in the same order. -/
  generation : d.generationBlocks.map Block.opening = Marker.openingsOf .generation d.markers
  /-- The edits are those of the open edit markers. -/
  edits : d.edits.map (·.block.opening) = Marker.openingsOf .edit d.markers
  /-- What is found under the name of an open edit marker is its own edit. -/
  get? : ∀ m ∈ Marker.openingsOf .edit d.markers, (d.edits.get? m.name).map (·.block.opening) = some m
  /-- Open edit markers and names under which an edit is found are in bijection. -/
  bijOn : Set.BijOn Marker.name {m | m ∈ Marker.openingsOf .edit d.markers}
    {name | (d.edits.get? name).isSome}

/-! ## Open markers and blocks -/

/-- **The open markers are those of the blocks**, in the same order. -/
theorem openings_marks {marks : List Mark}
    (h : ∀ m ∈ marks, m.marker.isEnd = false ↔ ∃ b, m = .opening b) :
    Marker.openings (marks.map Mark.marker) = (Mark.blocks marks).map Block.opening := by
  induction marks with
  | nil => rfl
  | cons m marks ih =>
    obtain ⟨hm, hmarks⟩ := List.forall_mem_cons.1 h
    rw [Marker.openings] at ih ⊢
    cases m with
    | opening b =>
      have hopens : b.opening.isEnd = false := hm.2 ⟨b, rfl⟩
      simp [Mark.marker, hopens, ih hmarks]
    | ending b =>
      have hends : b.ending.isEnd = true := Mark.isEnd_of_iff hm
      simp [Mark.marker, hends, ih hmarks]

/-- The same for the markers of one family. -/
theorem openingsOf_marks {marks : List Mark}
    (h : ∀ m ∈ marks, m.marker.isEnd = false ↔ ∃ b, m = .opening b) (f : Family) :
    Marker.openingsOf f (marks.map Mark.marker)
      = ((Mark.blocks marks).filter (·.family = f)).map Block.opening := by
  rw [Marker.openingsOf, openings_marks h, List.filter_map]
  rfl

/-- **The blocks are put together again** from the generation blocks among them and from edits in which that of
each edit block is found under its name. -/
theorem merged_eq {edits : Edits} {bs : List Block}
    (h : ∀ b ∈ bs, b.family = .edit → (edits.get? b.name).map (·.block) = some b) :
    merged edits (bs.filter (·.family = .generation)) (bs.map Block.opening) = bs := by
  induction bs with
  | nil => rfl
  | cons b bs ih =>
    obtain ⟨hb, hbs⟩ := List.forall_mem_cons.1 h
    cases hfamily : b.family with
    | generation =>
      have hopening : b.opening.family = .generation := hfamily
      simp [merged, hfamily, hopening, ih hbs]
    | edit =>
      have hopening : b.opening.family = .edit := hfamily
      obtain ⟨e, he, hblock⟩ := Option.map_eq_some_iff.1 (hb hfamily)
      have hname : edits.get? b.opening.name = some e := he
      simp [merged, hfamily, hopening, hname, hblock, ih hbs]

/-- What is collected place by place is what is collected in order. -/
theorem filterMap_range {α β : Type} (f : α → Option β) (l : List α) :
    (List.range l.length).filterMap (fun i => l[i]?.bind f) = l.filterMap f := by
  induction l with
  | nil => rfl
  | cons a l ih =>
    rw [List.length_cons, List.range_succ_eq_map, List.filterMap_cons, List.filterMap_map]
    have hrest : (fun i => (a :: l)[i]?.bind f) ∘ Nat.succ = fun i => l[i]?.bind f := by
      funext i
      simp
    rw [hrest, ih]
    rfl

/-- The pair at a place is that of the block which is opened there. -/
theorem pairAt?_eq {s : Settings} {t : Text} {d : Document} (hd : parse s t = .ok d) (i : Nat) :
    d.pairAt? i = d.marks[i]?.bind fun m => m.opened?.map fun b => (b.opening, b.ending) := by
  cases hm : d.marks[i]? with
  | none => simp [pairAt?, markers, hm]
  | some m =>
    have hpartner := (isSome_partner?_iff hd i).2 (List.getElem?_eq_some_iff.1 hm).1
    obtain ⟨j, hj⟩ := Option.isSome_iff_exists.1 hpartner
    obtain ⟨m', hm', hending⟩ := (partner?_eq_some_iff hd).1 hj
    obtain rfl : m' = m := Option.some.inj (hm'.symm.trans hm)
    have hopens := isEnd_of_mem_marks hd (List.mem_of_getElem? hm)
    cases m' with
    | opening b =>
      have hisEnd : b.opening.isEnd = false := hopens.2 ⟨b, rfl⟩
      simp [pairAt?, markers, hm, hj, hending, Mark.marker, Mark.partner, Mark.opened?, hisEnd]
    | ending b =>
      have hisEnd : b.ending.isEnd = true := Mark.isEnd_of_iff hopens
      simp [pairAt?, markers, hm, hj, hending, Mark.marker, Mark.partner, Mark.opened?, hisEnd]

/-- **The pairs are the blocks.** -/
theorem pairs_eq {s : Settings} {t : Text} {d : Document} (hd : parse s t = .ok d) :
    d.pairs = d.blocks.map fun b => (b.opening, b.ending) := by
  rw [pairs, funext (pairAt?_eq hd), markers, List.length_map, filterMap_range, blocks, List.map_filterMap]

/-! ## Names that are used twice -/

/-- **A name that is used twice is rejected** where it is used again first. -/
theorem eq_of_duplicate? {names : List Text} {bs : List Block} {b : Block} (h : duplicate? names bs = some b) :
    ∃ front back, bs = front ++ b :: back ∧ (front.map Block.name).Nodup ∧
      (∀ c ∈ front, c.name ∉ names) ∧ (b.name ∈ names ∨ b.name ∈ front.map Block.name) := by
  induction bs generalizing names with
  | nil => cases h
  | cons c bs ih =>
    rw [duplicate?] at h
    split at h
    next hc =>
      cases h
      exact ⟨[], bs, rfl, List.nodup_nil, by simp, .inl hc⟩
    next hc =>
      obtain ⟨front, back, rfl, hnodup, hnew, hused⟩ := ih h
      have hfront : c.name ∉ front.map Block.name := by
        intro hmem
        obtain ⟨c', hc', hname⟩ := List.mem_map.1 hmem
        exact hnew c' hc' (by simp [hname])
      refine ⟨c :: front, back, rfl, List.nodup_cons.2 ⟨hfront, hnodup⟩, ?_, ?_⟩
      · rintro c' (_ | ⟨_, hc'⟩)
        · exact hc
        · exact fun hmem => hnew c' hc' (List.mem_cons_of_mem _ hmem)
      · rcases hused with hused | hused
        · rcases List.mem_cons.1 hused with hname | hname
          · exact .inr (by simp [hname])
          · exact .inl hname
        · exact .inr (List.mem_cons_of_mem _ hused)

/-! ## Documents -/

/-- A document that was read has coherent views. -/
theorem coherent_of_parse {s : Settings} {t : Text} {d : Document} (hd : parse s t = .ok d) : d.Coherent := by
  have houter := outermost_of_parse hd
  have hnodup := nodup_of_parse hd
  have hedits := edits_of_parse hd
  have hopens := fun m hm => isEnd_of_mem_marks hd (m := m) hm
  have hopenings : d.blocks.map Block.opening = Marker.openings d.markers := (openings_marks hopens).symm
  have hget : ∀ b ∈ d.blocks, b.family = .edit → (d.edits.get? b.name).map (·.block) = some b := by
    intro b hb hfamily
    have hmem := (mem_edits_iff hd).2 ⟨b, hb, hfamily, rfl⟩
    have hfound := Edits.get?_of_mem (nodup_edits hd) hmem
    exact congrArg (Option.map EditBlock.block) hfound
  have hof : Marker.openingsOf .edit d.markers = (editBlocks d.marks).map Block.opening := openingsOf_marks hopens .edit
  have hedit : d.edits.map (·.block.opening) = Marker.openingsOf .edit d.markers := by
    rw [hof, hedits, List.map_map]
    rfl
  have hnames : d.edits.map EditBlock.name = (Marker.openingsOf .edit d.markers).map Marker.name := by
    rw [← hedit, List.map_map]
    rfl
  exact
    { openings := hopenings
      pairs := pairs_eq hd
      merged := by rw [← hopenings]; exact merged_eq hget
      generation := (openingsOf_marks hopens .generation).symm
      edits := hedit
      get? := fun m hm => by
        rw [hof] at hm
        obtain ⟨b, hb, rfl⟩ := List.mem_map.1 hm
        obtain ⟨hb, hfamily⟩ := List.mem_filter.1 hb
        obtain ⟨e, he, rfl⟩ := Option.map_eq_some_iff.1 (hget b hb (by simpa using hfamily))
        exact Option.map_eq_some_iff.2 ⟨e, he, rfl⟩
      bijOn := by
        refine ⟨fun m hm => ?_, fun m hm m' hm' hname => ?_, fun name hname => ?_⟩
        · rw [Set.mem_ofPred_eq, Edits.get?_isSome_iff, hnames]
          exact List.mem_map_of_mem hm
        · exact List.inj_on_of_nodup_map (hnames ▸ nodup_edits hd) hm hm' hname
        · rw [Set.mem_ofPred_eq, Edits.get?_isSome_iff, hnames] at hname
          exact List.mem_map.1 hname }

/-- **A text is read with views that agree, or it is rejected for an edit whose name is used twice.** If the
settings are usable, and the markers can be found and paired, but two of the open edit markers have the same name, at
whatever depths they stand, then the text is rejected at the first of them whose name one in front of it has. -/
theorem coherent_or_duplicate (s : Settings) (t : Text) :
    (∀ d, parse s t = .ok d → d.Coherent) ∧
      ∀ ms marks, checkSettings s = .ok () → Marker.scanAll t s = .ok ms → pairMarkers t ms = .ok marks →
        ¬ ((Marker.openingsOf .edit ms).map Marker.name).Nodup →
          ∃ front m back, Marker.openingsOf .edit ms = front ++ m :: back ∧ (front.map Marker.name).Nodup ∧
            m.name ∈ front.map Marker.name ∧ parse s t = failAt (.duplicateEdit m.quoted) (m.place t) := by
  refine ⟨fun d hd => coherent_of_parse hd, fun ms marks hsettings hscan hpair htwice => ?_⟩
  obtain ⟨houter, rfl⟩ := pairMarkers_eq_ok_iff.1 hpair
  have hof : Marker.openingsOf .edit (marks.map Mark.marker) = (editBlocks marks).map Block.opening :=
    openingsOf_marks (fun m hm => houter.isEnd_eq_false_iff hm) .edit
  rw [hof, List.map_map] at htwice
  cases hdup : duplicate? [] (editBlocks marks) with
  | none => exact absurd (duplicate?_eq_none_iff.1 hdup).1 htwice
  | some b =>
    obtain ⟨front, back, hblocks, hnodup, -, hused⟩ := eq_of_duplicate? hdup
    refine ⟨front.map Block.opening, b.opening, back.map Block.opening, ?_, ?_, ?_, ?_⟩
    · rw [hof, hblocks, List.map_append, List.map_cons]
    · rwa [List.map_map]
    · rw [List.map_map]
      exact hused.resolve_left (by simp)
    · rw [editBlocks] at hdup
      simp only [parse, hsettings, hscan, hpair, hdup, bind, Except.bind]

/-- A text in which an edit inside a generation block and one behind it have the same name, with other blanks
around it. -/
def renamedText : Text := "[[[ g ]]]\n<<[ a ]>>\n<<[ end ]>>\n[[[ end ]]]\n<<[  a]>> <<[ end ]>>\n"

/-- The markers of that text. -/
def renamedMarkers : List Marker := ((Marker.scanAll renamedText .standard).toOption).getD []

/-- The document of nested edits shows the same blocks in all ways, and that text is rejected at the second of its
edits. -/
theorem coherent_or_duplicate_renamed :
    (parse .standard nestedText = .ok nestedEdits ∧ nestedEdits.Coherent) ∧
      (∃ marks, checkSettings .standard = .ok () ∧ Marker.scanAll renamedText .standard = .ok renamedMarkers ∧
        pairMarkers renamedText renamedMarkers = .ok marks) ∧
      ¬ ((Marker.openingsOf .edit renamedMarkers).map Marker.name).Nodup ∧
      ∃ front m back, Marker.openingsOf .edit renamedMarkers = front ++ m :: back ∧
        (front.map Marker.name).Nodup ∧ m.name ∈ front.map Marker.name ∧
          parse .standard renamedText = failAt (.duplicateEdit m.quoted) (m.place renamedText) := by
  have hd : parse .standard nestedText = .ok nestedEdits := by rfl
  have hscan : Marker.scanAll renamedText .standard = .ok renamedMarkers := by rfl
  obtain ⟨marks, hpair⟩ : ∃ marks, pairMarkers renamedText renamedMarkers = .ok marks := ⟨_, rfl⟩
  have htwice : ¬ ((Marker.openingsOf .edit renamedMarkers).map Marker.name).Nodup := by decide +kernel
  exact ⟨⟨hd, (coherent_or_duplicate .standard nestedText).1 nestedEdits hd⟩, ⟨marks, by rfl, hscan, hpair⟩, htwice,
    (coherent_or_duplicate .standard renamedText).2 renamedMarkers marks (by rfl) hscan hpair htwice⟩

end Document

end Regen
