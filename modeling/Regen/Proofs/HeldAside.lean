import Regen.Proofs.Families
import Regen.Proofs.Frame
import Regen.Proofs.Restoring

/-!
# Blocks that are held aside

The pass that holds blocks aside sees markers only, and of those of generation blocks it only counts how
many are open. If no pair mixes the families, this is enough: inside a block that is held aside nothing
happens (`Holding.foldl_of_nesting`), and where it ends the count is back at zero. So what the pass has dealt
with is at all times the text up to some offset, with a gap for each block held aside
(`Holding.Covers`), and in the end that is the whole text (`Document.exists_gapped`).

The edits that are not held aside are outermost, since an edit is not directly inside an edit.
-/

namespace Regen

/-! ## Marks in the order of their spans -/

namespace Mark

/-- Up to where a text has been dealt with behind a mark. -/
def reach : Mark → Nat
  | opening _ => 0
  | ending b => b.endSpan.stop

/-- How far a text can have been dealt with in front of a mark. -/
def bound : Mark → Nat
  | opening b => b.openSpan.start
  | ending b => b.endSpan.stop

/-- **Marks that can be dealt with one after the other**, in a text dealt with up to an offset. -/
structure Ordered (offset : Nat) (marks : List Mark) : Prop where
  /-- Behind a mark there is room for those that follow. -/
  pairwise : marks.Pairwise fun m m' => m.reach ≤ m'.bound
  /-- There is room for all of them. -/
  bound : ∀ m ∈ marks, offset ≤ m.bound
  /-- A block ends behind where it starts. -/
  spans : ∀ b ∈ blocks marks, b.openSpan.start ≤ b.endSpan.stop

variable {offset : Nat} {b : Block} {marks marks' : List Mark}

/-- A block leaves room for the marks inside it, if nothing was dealt with for its own open mark. -/
theorem Ordered.inside (h : Ordered offset (.opening b :: (marks ++ .ending b :: marks'))) :
    Ordered offset marks ∧ ∀ m ∈ marks, m.reach ≤ b.endSpan.stop := by
  obtain ⟨hpairwise, hbound, hspans⟩ := h
  obtain ⟨-, hpairwise⟩ := List.pairwise_cons.1 hpairwise
  obtain ⟨hinner, -, hacross⟩ := List.pairwise_append.1 hpairwise
  refine ⟨⟨hinner, fun m hm => hbound m (by simp [hm]), fun c hc => hspans c (by simp [hc])⟩,
    fun m hm => ?_⟩
  exact hacross m hm _ List.mem_cons_self

/-- A block leaves room for the marks behind it. -/
theorem Ordered.behind (h : Ordered offset (.opening b :: (marks ++ .ending b :: marks'))) :
    Ordered b.endSpan.stop marks' := by
  obtain ⟨hpairwise, -, hspans⟩ := h
  obtain ⟨-, hpairwise⟩ := List.pairwise_cons.1 hpairwise
  obtain ⟨-, hrest, -⟩ := List.pairwise_append.1 hpairwise
  obtain ⟨hend, hrest⟩ := List.pairwise_cons.1 hrest
  exact ⟨hrest, hend, fun c hc => hspans c (by simp [hc])⟩

end Mark

namespace Block

variable {t : Text} {b : Block}

/-- What is written back with an end marker holds the marker. -/
theorem closeEnd_le_endSpan_stop (hb : b = ofMarkers t b.opening b.ending b.depth b.isInline)
    (hordered : b.opening.closeEnd ≤ b.ending.openAt) (hbound : b.ending.closeEnd ≤ t.length) :
    b.ending.closeEnd ≤ b.endSpan.stop := by
  rw [endSpan_stop_eq hb hordered]
  split
  · exact le_rfl
  · exact (Text.lineStop_bounds t hbound).1

/-- **What is written back with an end marker** ends in front of the markers that follow. -/
theorem endSpan_stop_le {s : Settings} {m : Mark}
    (hb : b = ofMarkers t b.opening b.ending b.depth b.isInline)
    (hordered : b.opening.closeEnd ≤ b.ending.openAt) (hm : m.marker.Stands s t)
    (h : Mark.Before t (.ending b) m) : b.endSpan.stop ≤ m.marker.openAt := by
  rw [endSpan_stop_eq hb hordered]
  split
  · exact h.ordered
  · rename_i hinline
    have hlines : (Mark.ending b).block.isInline = false := Bool.not_eq_true _ ▸ hinline
    exact (hm.lineStop_le (h.newline (.inl hlines))).trans (Nat.sub_le _ _)

end Block

/-- **The marks of a document** can be dealt with one after the other. -/
theorem Document.ordered_marks {s : Settings} {t : Text} {d : Document} (hd : parse s t = .ok d) :
    Mark.Ordered 0 d.marks := by
  obtain ⟨hbefore, -⟩ := Document.pairwise_before hd
  have houter := Document.outermost_of_parse hd
  have hblock := Document.stands_of_mem_blocks hd
  have hstop : ∀ b ∈ d.blocks, b.openSpan.start ≤ b.endSpan.stop ∧ b.ending.openAt ≤ b.endSpan.stop := by
    intro b hb
    obtain ⟨hformed, ho, he, h⟩ := hblock b hb
    have hspans := Block.spans_ordered hformed ho he h
    have hwidth := he.width
    have hstop := Block.closeEnd_le_endSpan_stop hformed h.ordered he.bound
    exact ⟨by omega, by omega⟩
  refine ⟨hbefore.imp_of_mem fun {m m'} hm hm' h => ?_, fun m _ => Nat.zero_le _,
    fun b hb => (hstop b hb).1⟩
  cases m with
  | opening b => exact Nat.zero_le _
  | ending b =>
    have hb := hblock b (houter.nested.mem_blocks_of_ending hm)
    cases m' with
    | opening c =>
      have hc := hblock c (List.mem_filterMap.2 ⟨_, hm', rfl⟩)
      exact Block.spans_disjoint hb.formed hc.formed hb.before.ordered hc.before.ordered hb.ending
        hc.opening h
    | ending c =>
      have hc := houter.nested.mem_blocks_of_ending hm'
      exact (Block.endSpan_stop_le (m := .ending c) hb.formed hb.before.ordered (hblock c hc).ending h).trans
        (hstop c hc).2

/-! ## One block after the other -/

namespace Gapped

/-- The text with more behind it. -/
def append (y : Text) : Gapped → Gapped
  | last x => last (x ++ y)
  | gap x n rest => gap x n (append y rest)

/-- The text with a gap behind it. -/
def addGap (n : Nat) : Gapped → Gapped
  | last x => gap x n (last [])
  | gap x m rest => gap x m (addGap n rest)

variable {f : Nat → Text}

@[simp] theorem fill_append (y : Text) (g : Gapped) : (g.append y).fill f = g.fill f ++ y := by
  induction g with
  | last x => rfl
  | gap x n rest ih => simp [append, fill, ih]

@[simp] theorem numbers_append (y : Text) (g : Gapped) : (g.append y).numbers = g.numbers := by
  induction g with
  | last x => rfl
  | gap x n rest ih => rw [append, numbers, numbers, ih]

@[simp] theorem fill_addGap (n : Nat) (g : Gapped) : (g.addGap n).fill f = g.fill f ++ f n := by
  induction g with
  | last x => simp [addGap, fill]
  | gap x m rest ih => simp [addGap, fill, ih]

@[simp] theorem numbers_addGap (n : Nat) (g : Gapped) : (g.addGap n).numbers = g.numbers ++ [n] := by
  induction g with
  | last x => rfl
  | gap x m rest ih => rw [addGap, numbers, numbers, ih, List.cons_append]

end Gapped

/-- The front of a text and what follows it make up a longer front. -/
theorem Text.take_append_extract (t : Text) {i j : Nat} (h : i ≤ j) :
    t.take i ++ t.extract i j = t.take j := by
  simpa [List.extract_eq_take_drop] using extract_append_extract t (Nat.zero_le i) h

namespace Holding

variable {t : Text}

/-- **What has been dealt with** between blocks held aside: the text up to the offset, with a gap for each
of these blocks. -/
structure Covers (t : Text) (h : Holding) (g : Gapped) : Prop where
  /-- No generation block is open. -/
  nesting : h.nesting = 0
  /-- There is a placeholder in each gap. -/
  buffer : h.buffer = g.fill placeholder
  /-- The gaps are numbered as the blocks are. -/
  numbers : g.numbers = List.range h.held.length
  /-- With the blocks in the gaps it is the text. -/
  source : ∀ f : Nat → Text, (∀ i s, h.held.reverse[i]? = some s → f i = s.of t) →
    g.fill f = t.take h.offset

/-- **Inside a block that is held aside** the marks of unmixed blocks change nothing. -/
theorem foldl_of_nesting {depth : Nat} {marks : List Mark} (hmarks : Nested t depth marks)
    (hunmixed : ∀ b ∈ Mark.blocks marks, b.Unmixed) {h : Holding} (hnesting : 1 ≤ h.nesting) :
    marks.foldl (step t) h = h := by
  induction hmarks generalizing h with
  | nil => rfl
  | @block depth b inner rest _ _ _ ihInner ihRest =>
    have hb : b.ending.family = b.opening.family := hunmixed b (by simp)
    rw [List.foldl_cons, List.foldl_append, List.foldl_cons]
    cases hfamily : b.opening.family with
    | generation =>
      have hopen : step t h (.opening b) = { h with nesting := h.nesting + 1 } := by
        simp [step, Mark.marker, hfamily, show h.nesting ≠ 0 by omega]
      have hend : step t { h with nesting := h.nesting + 1 } (.ending b) = h := by
        simp [step, Mark.marker, hb, hfamily, show ¬ h.nesting + 1 ≤ 1 by omega]
      rw [hopen, ihInner (fun c hc => hunmixed c (by simp [hc])) (by simp), hend,
        ihRest (fun c hc => hunmixed c (by simp [hc])) hnesting]
    | edit =>
      have hopen : step t h (.opening b) = h := by
        simp [step, Mark.marker, hfamily, show h.nesting ≠ 0 by omega]
      have hend : step t h (.ending b) = h := by
        simp [step, Mark.marker, hb, hfamily, show h.nesting ≠ 0 by omega]
      rw [hopen, ihInner (fun c hc => hunmixed c (by simp [hc])) hnesting, hend,
        ihRest (fun c hc => hunmixed c (by simp [hc])) hnesting]

/-- **A generation block** is held aside. -/
theorem Covers.foldl_generation {h : Holding} {g : Gapped} (hcovers : Covers t h g) {b : Block}
    {depth : Nat} {inner : List Mark} (hfamily : b.family = .generation) (hb : b.Unmixed)
    (hinner : Nested t depth inner) (hunmixed : ∀ c ∈ Mark.blocks inner, c.Unmixed)
    (hstart : h.offset ≤ b.openSpan.start) (hstop : b.openSpan.start ≤ b.endSpan.stop) :
    ∃ h' g', (.opening b :: (inner ++ [.ending b])).foldl (step t) h = h' ∧ Covers t h' g' ∧
      h'.offset = b.endSpan.stop ∧ h'.freed = h.freed := by
  have hopening : b.opening.family = .generation := hfamily
  have hending : b.ending.family = .generation := hb.trans hfamily
  have hopen : step t h (.opening b) = { h with
      nesting := 1
      buffer := h.buffer ++ t.extract h.offset b.openSpan.start ++ placeholder h.held.length
      held := ⟨b.openSpan.start, b.openSpan.start⟩ :: h.held } := by
    simp [step, Mark.marker, Mark.span, hopening, hcovers.nesting]
  have hend : ∀ h₁ : Holding, h₁.nesting = 1 → step t h₁ (.ending b) =
      { h₁ with nesting := 0, held := extendLast b.endSpan.stop h₁.held, offset := b.endSpan.stop } := by
    intro h₁ hnesting
    simp [step, Mark.marker, Mark.span, hending, hnesting]
  rw [List.foldl_cons, List.foldl_append, hopen, foldl_of_nesting hinner hunmixed le_rfl,
    List.foldl_cons, List.foldl_nil, hend _ rfl]
  refine ⟨_, (g.append (t.extract h.offset b.openSpan.start)).addGap h.held.length, rfl, ?_, rfl, rfl⟩
  constructor
  · rfl
  · simp [hcovers.buffer]
  · simp [extendLast, hcovers.numbers, List.range_succ]
  · intro f hf
    have hlast : f h.held.length = t.extract b.openSpan.start b.endSpan.stop :=
      hf h.held.length ⟨b.openSpan.start, b.endSpan.stop⟩ (by simp [extendLast])
    have hbefore := hcovers.source f fun i s hs => hf i s (by
      have hi := (List.getElem?_eq_some_iff.1 hs).1
      rw [extendLast, List.reverse_cons, List.getElem?_append_left hi, hs])
    rw [Gapped.fill_addGap, Gapped.fill_append, hbefore, hlast, Text.take_append_extract t hstart,
      Text.take_append_extract t hstop]

/-- **What a stretch of marks does**: the blocks in it are covered, up to a place that the last of them
reaches, and edits are freed. -/
structure Passes (t : Text) (h h' : Holding) (marks : List Mark) (names : List Text) : Prop where
  /-- The text goes on being covered. -/
  covers : ∃ g, Covers t h' g
  /-- It is covered no further than it was, or than the marks reach. -/
  offset : ∀ k, h.offset ≤ k → (∀ m ∈ marks, m.reach ≤ k) → h'.offset ≤ k
  /-- Only these edits have been freed. -/
  freed : ∀ name ∈ h'.freed, name ∈ h.freed ∨ name ∈ names

/-- A block that has been covered goes in front of the marks behind it. -/
theorem Passes.block {h h₁ h' : Holding} {b : Block} {inner rest : List Mark} (names : List Text)
    {names' : List Text} (hstop : h₁.offset = b.endSpan.stop)
    (hfreed : ∀ name ∈ h₁.freed, name ∈ h.freed ∨ name ∈ names) (hrest : Passes t h₁ h' rest names') :
    Passes t h h' (.opening b :: (inner ++ .ending b :: rest)) (names ++ names') where
  covers := hrest.covers
  offset k _ hreach := hrest.offset k (hstop ▸ hreach (.ending b) (by simp))
    fun m hm => hreach m (by simp [hm])
  freed name hname := by
    rcases hrest.freed name hname with hname | hname
    · exact (hfreed name hname).imp_right (List.mem_append_left _)
    · exact .inr (List.mem_append_right _ hname)

/-- Marks are dealt with block by block. -/
theorem foldl_block (h : Holding) (b : Block) (inner rest : List Mark) :
    (.opening b :: (inner ++ .ending b :: rest)).foldl (step t) h
      = rest.foldl (step t) ((.opening b :: (inner ++ [.ending b])).foldl (step t) h) := by
  rw [← List.foldl_append]
  simp

/-- **The generation blocks directly inside an edit** are held aside, and no other edit is there. -/
theorem Covers.foldl_inside {isInline : Bool} {depth : Nat} {p q : Marker} {marks : List Mark}
    (hinside : Inside t .edit isInline depth p marks q)
    (hunmixed : ∀ b ∈ Mark.blocks marks, b.Unmixed) {h : Holding} {g : Gapped}
    (hcovers : Covers t h g) (hordered : Mark.Ordered h.offset marks) :
    Passes t h (marks.foldl (step t) h) marks [] := by
  generalize hedit : Family.edit = family at hinside
  induction hinside generalizing h g with
  | nil => exact ⟨⟨g, hcovers⟩, fun _ hk _ => hk, fun _ => .inl⟩
  | @block _ _ _ _ _ _ b inner rest _ _ _ _ _ hnested hinner _ _ _ _ ihRest =>
    have hfamily : b.family = .generation := by
      cases hb : b.family with
      | generation => rfl
      | edit => exact absurd ⟨hb, hedit.symm⟩ hnested
    obtain ⟨h₁, g₁, hblock, hcovers₁, hoffset, hfreed⟩ := hcovers.foldl_generation hfamily
      (hunmixed b (by simp)) hinner.nested (fun c hc => hunmixed c (by simp [hc]))
      (hordered.bound (.opening b) (by simp)) (hordered.spans b (by simp))
    rw [foldl_block, hblock]
    exact .block [] hoffset (fun _ hname => .inl (hfreed ▸ hname))
      (ihRest (fun c hc => hunmixed c (by simp [hc])) hcovers₁ (hoffset ▸ hordered.behind) hedit)

/-- **An outermost edit** is freed, and the text is covered up to its end. -/
theorem Covers.foldl_edit {b : Block} {inner rest : List Mark} (henclosed : Encloses t 1 b inner)
    (hfamily : b.family = .edit) (hb : b.Unmixed) (hunmixed : ∀ c ∈ Mark.blocks inner, c.Unmixed)
    {h : Holding} {g : Gapped} (hcovers : Covers t h g)
    (hordered : Mark.Ordered h.offset (.opening b :: (inner ++ .ending b :: rest))) :
    ∃ h' g', (.opening b :: (inner ++ [.ending b])).foldl (step t) h = h' ∧ Covers t h' g' ∧
      h'.offset = b.endSpan.stop ∧ ∀ name ∈ h'.freed, name ∈ h.freed ∨ name ∈ [b.name] := by
  have hopening : b.opening.family = .edit := hfamily
  have hending : b.ending.family = .edit := hb.trans hfamily
  have hopen : step t h (.opening b) = { h with freed := b.name :: h.freed } := by
    simp [step, Mark.marker, hopening, hcovers.nesting]
  have hend : ∀ h₁ : Holding, h₁.nesting = 0 → step t h₁ (.ending b) =
      { h₁ with buffer := h₁.buffer ++ t.extract h₁.offset b.endSpan.stop
                offset := b.endSpan.stop } := by
    intro h₁ hnesting
    simp [step, Mark.marker, Mark.span, hending, hnesting]
  obtain ⟨q, hinside, -⟩ := henclosed.layout
  rw [hfamily] at hinside
  obtain ⟨hinner, hreach⟩ := hordered.inside
  have hfreeing : Covers t { h with freed := b.name :: h.freed } g :=
    ⟨hcovers.nesting, hcovers.buffer, hcovers.numbers, hcovers.source⟩
  have hpasses := hfreeing.foldl_inside hinside hunmixed hinner
  rw [List.foldl_cons, List.foldl_append, hopen, List.foldl_cons, List.foldl_nil]
  generalize inner.foldl (step t) { h with freed := b.name :: h.freed } = h₁ at hpasses
  obtain ⟨⟨g₁, hcovers₁⟩, hoffset, hfreed⟩ := hpasses
  have hstop := hoffset b.endSpan.stop (hordered.bound (.ending b) (by simp)) hreach
  rw [hend _ hcovers₁.nesting]
  refine ⟨_, g₁.append (t.extract h₁.offset b.endSpan.stop), rfl, ⟨hcovers₁.nesting, ?_, ?_, ?_⟩,
    rfl, ?_⟩
  · rw [Gapped.fill_append, hcovers₁.buffer]
  · rw [Gapped.numbers_append, hcovers₁.numbers]
  · intro f hf
    rw [Gapped.fill_append, hcovers₁.source f hf, Text.take_append_extract t hstop]
  · intro name hname
    rcases hfreed name hname with hname | hname
    · rcases List.mem_cons.1 hname with rfl | hname
      · exact .inr (List.mem_singleton_self _)
      · exact .inl hname
    · cases hname

/-- **All marks of a text**: generation blocks are held aside, and outermost edits are freed. -/
theorem Covers.foldl_outermost {previous? : Option Block} {marks : List Mark}
    (houter : Outermost t previous? marks) (hunmixed : ∀ b ∈ Mark.blocks marks, b.Unmixed)
    {h : Holding} {g : Gapped} (hcovers : Covers t h g) (hordered : Mark.Ordered h.offset marks) :
    Passes t h (marks.foldl (step t) h) marks
      (((Mark.outermost marks).filter (·.family = .edit)).map Block.name) := by
  induction houter generalizing h g with
  | nil => exact ⟨⟨g, hcovers⟩, fun _ hk _ => hk, fun _ => .inl⟩
  | @block _ b inner rest henclosed _ _ ih =>
    have hinner : ∀ c ∈ Mark.blocks inner, c.Unmixed := fun c hc => hunmixed c (by simp [hc])
    have hrest : ∀ c ∈ Mark.blocks rest, c.Unmixed := fun c hc => hunmixed c (by simp [hc])
    rw [foldl_block, Mark.outermost_block henclosed, List.filter_cons]
    cases hfamily : b.family with
    | generation =>
      obtain ⟨q, hinside, -⟩ := henclosed.layout
      obtain ⟨h₁, g₁, hblock, hcovers₁, hoffset, hfreed⟩ := hcovers.foldl_generation hfamily
        (hunmixed b (by simp)) hinside.nested hinner (hordered.bound (.opening b) (by simp))
        (hordered.spans b (by simp))
      rw [hblock]
      exact .block [] hoffset (fun _ hname => .inl (hfreed ▸ hname))
        (ih hrest hcovers₁ (hoffset ▸ hordered.behind))
    | edit =>
      obtain ⟨h₁, g₁, hblock, hcovers₁, hoffset, hfreed⟩ := hcovers.foldl_edit henclosed hfamily
        (hunmixed b (by simp)) hinner hordered
      rw [hblock]
      exact .block [b.name] hoffset hfreed
        (ih hrest hcovers₁ (hoffset ▸ hordered.behind))

end Holding

namespace Document

variable {s : Settings} {t : Text} {d : Document}

/-- **With its generation blocks held aside a text is a text with gaps**, one for each of them, and with
the blocks in the gaps it is the text again. -/
theorem exists_gapped (hd : parse s t = .ok d) (hunmixed : ∀ b ∈ d.blocks, b.Unmixed) :
    (∃ g : Gapped, (Holding.ofDocument d).buffer = g.fill placeholder ∧
      g.numbers = List.range (Holding.ofDocument d).held.length ∧ g.fill d.heldText = t) ∧
    ∀ name ∈ (Holding.ofDocument d).freed,
      name ∈ (d.outermost.filter (·.family = .edit)).map Block.name := by
  have houter := outermost_of_parse hd
  have hstart : Holding.Covers t {} (.last []) := ⟨rfl, rfl, rfl, fun _ _ => rfl⟩
  obtain ⟨⟨g, hcovers⟩, -, hfreed⟩ := hstart.foldl_outermost houter hunmixed (ordered_marks hd)
  have hend : Holding.ofDocument d = { d.marks.foldl (Holding.step t) {} with
      buffer := (d.marks.foldl (Holding.step t) {}).buffer
        ++ t.drop (d.marks.foldl (Holding.step t) {}).offset } := by
    rw [Holding.ofDocument, source_of_parse hd]
  have hheld : ∀ i s, (Holding.ofDocument d).held.reverse[i]? = some s → d.heldText i = s.of t := by
    intro i s hs
    rw [heldText_eq hs, source_of_parse hd]
  rw [hend] at hheld ⊢
  refine ⟨⟨g.append (t.drop (d.marks.foldl (Holding.step t) {}).offset), ?_, ?_, ?_⟩, fun name hname => ?_⟩
  · rw [Gapped.fill_append, hcovers.buffer]
  · rw [Gapped.numbers_append, hcovers.numbers]
  · rw [Gapped.fill_append, hcovers.source _ hheld, List.take_append_drop]
  · exact (hfreed name hname).resolve_left List.not_mem_nil

/-- A placeholder begins as all do, so it does not occur where its beginning does not. -/
theorem unheld_of_beginning (h : ¬ Text.ofString "°#@[COGMARK_" <:+: t) : t.Unheld := by
  intro n hn
  rw [placeholder_eq] at hn
  exact h ((List.prefix_append _ _).isInfix.trans hn)

/-- **A renderer that changes nothing** has the whole text regenerated. -/
theorem renderedDocument_eq_source (hd : parse s t = .ok d) (hunmixed : ∀ b ∈ d.blocks, b.Unmixed)
    (hunheld : t.Unheld) {run : Run}
    (hrender : run.render (Holding.ofDocument d).buffer = .ok (Holding.ofDocument d).buffer) :
    run.renderedDocument d = .ok t := by
  obtain ⟨⟨g, hbuffer, hnumbers, hfill⟩, -⟩ := exists_gapped hd hunmixed
  have hbound : ∀ k ∈ g.numbers, k < (Holding.ofDocument d).held.length := by simp [hnumbers]
  have hrestored := (Holding.restore_eq_fill_iff (fun _ _ => heldText_eq) (by simpa using hbound)).2
    ⟨hnumbers ▸ List.nodup_range, hfill ▸ hunheld⟩
  rw [Run.renderedDocument, hrender]
  show Except.ok _ = _
  rw [hbuffer, hrestored.1, hfill]

end Document

end Regen
