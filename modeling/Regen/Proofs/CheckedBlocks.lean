import Regen.Proofs.CheckedBody
import Regen.Proofs.Reading
import Regen.Proofs.Resolution

/-!
# Checked regeneration of blocks

Reading a text puts the passes of the modules before together: with checked access it has the outcome that it has
without (`Checked.parse_eq`), and the spans of what is read lie between characters (`Document.Cut`).

The blocks are then regenerated in one walk over the marks, which counts how many blocks are open and acts at the
outermost ones only. That is another order of things than to fill the outermost blocks one after the other, but the
marks inside of a block are passed over (`Checked.walk_nested`), and so it comes to the same (`Checked.walk_eq`). What a
marker yields is read and regenerated in turn. All of these texts are written in characters, since those of the renderer
are and since the bodies of edits are cut out of such texts; the induction is on the levels that are left
(`Checked.evaluate_eq`).
-/

namespace Regen

open Text (newline space)

/-! ## Documents in characters -/

/-- **An edit that is written in characters**, with the text that it stands in. -/
structure EditBlock.Encoded (e : EditBlock) : Prop where
  /-- Its text is. -/
  source : e.source.Encoded
  /-- Its body is. -/
  body : e.block.body.Encoded
  /-- And so is what is to be used in place of it. -/
  replacement : ∀ x ∈ e.replacement, x.Encoded

/-- **A document that can be cut at its marks.** -/
structure Document.Cut (d : Document) : Prop where
  /-- Its text is written in characters. -/
  source : d.source.Encoded
  /-- The spans of its blocks lie between them. -/
  blocks : ∀ m ∈ d.marks, m.block.Cut d.source
  /-- Its marks are nested. -/
  arranged : Outermost d.source none d.marks
  /-- Its edits are written in characters. -/
  edits : ∀ e ∈ d.edits, e.Encoded

namespace Checked

/-- Reads a text. -/
def parse (s : Settings) (t : Text) : Guarded Document := do
  answered (Document.checkSettings s)
  let markers ← scanAll t s
  let marks ← pairMarkers t markers
  let edits := (marks.filterMap Mark.opened?).filter (·.family = .edit)
  match Document.duplicate? [] edits with
  | some b => failAt (.duplicateEdit b.opening.quoted) (locate t b.opening.openAt b.opening.tokens.opener.length)
  | none => return { source := t, marks, edits := edits.map fun block => { source := t, block } }

section

variable {s : Settings} {t : Text} (hs : s.Encoded) (ht : t.Encoded)
include hs ht

/-- **Reading a text is never out of range.** -/
theorem parse_eq : parse s t = answered (Document.parse s t) := by
  rw [parse, Document.parse]
  refine answered_bind_eq fun _ hsettings => ?_
  obtain ⟨hscan, hplaced⟩ := scanAll_eq ht hs (Document.checkSettings_eq_ok_iff.1 hsettings)
  rw [hscan]
  refine answered_bind_eq fun ms hms => ?_
  rw [pairMarkers_eq ht (hplaced ms hms)]
  refine answered_bind_eq fun marks _ => ?_
  dsimp only
  cases Document.duplicate? [] ((marks.filterMap Mark.opened?).filter (·.family = .edit)) with
  | some b =>
    simp only [locate_eq ht, failAt_some]
    rfl
  | none => rfl

/-- **What is read can be cut at its marks.** -/
theorem cut_of_parse {d : Document} (hd : Document.parse s t = .ok d) : d.Cut := by
  obtain ⟨husable, hlexed, houter, -, rfl, hedits⟩ := Document.parse_eq_ok_iff.1 hd
  have hplaced := (scanAll_eq ht hs husable).2 _ (husable.scanAll_eq_ok_iff.2 hlexed)
  have hblocks : ∀ b ∈ Mark.blocks d.marks, b.Cut d.source := by
    intro b hb
    have hopening := Mark.opening_mem_of_mem_blocks hb
    have hending := houter.nested.partner_mem hopening
    rw [(houter.nested.formed b hb).2]
    exact Block.cut_ofMarkers ht (hplaced _ (List.mem_map.2 ⟨_, hopening, rfl⟩))
      (hplaced _ (List.mem_map.2 ⟨_, hending, rfl⟩)) _ _
  refine ⟨ht, fun m hm => ?_, houter, fun e he => ?_⟩
  · cases m with
    | opening b => exact hblocks b (List.mem_filterMap.2 ⟨_, hm, rfl⟩)
    | ending b => exact hblocks b (houter.nested.mem_blocks_of_ending hm)
  · rw [hedits] at he
    obtain ⟨b, hb, rfl⟩ := List.mem_map.1 he
    exact ⟨ht, (hblocks b (List.mem_filter.1 hb).1).body, by simp⟩

end

/-! ## Computations that claim edits -/

/-- A computation with checked access that may fail and keeps the names of the edits that have been asked for. -/
abbrev Watched := StateT (List Text) Guarded

/-- A claiming computation that is never out of range. -/
def watched {α : Type} (x : Claiming α) : Watched α := fun claimed => answered (x.run claimed)

/-- A computation fails inside of the resolution of a marker, if the frame of that can be put together. -/
def framed {α : Type} (frame : Option Frame) (x : Watched α) : Watched α := fun claimed =>
  ExceptT.mk do
    match ← (x.run claimed).run with
    | .ok answer => return .ok answer
    | .error e => do
      let frame ← frame
      return .error (e.within frame)

section

variable {α β : Type}

@[simp] theorem pure_eq_watched (a : α) : (pure a : Watched α) = watched (pure a) := rfl

@[simp] theorem lift_some_watched_bind (a : α) (f : α → Watched β) : (liftM (some a) : Watched α) >>= f = f a := rfl

@[simp] theorem lift_answered (x : Outcome α) : (liftM (answered x) : Watched α) = watched (liftM x) := by
  funext claimed
  cases x <;> rfl

/-- **One claiming computation after the other** is never out of range if both are not. -/
theorem watched_bind_eq {x : Claiming α} {f : α → Claiming β} {g : α → Watched β}
    (h : ∀ a, (∃ c c', x.run c = .ok (a, c')) → g a = watched (f a)) : watched x >>= g = watched (x >>= f) := by
  funext claimed
  show answered (x.run claimed) >>= (fun p => (g p.1).run p.2) = answered (x.run claimed >>= fun p => (f p.1).run p.2)
  refine answered_bind_eq fun p hp => ?_
  rw [h p.1 ⟨claimed, p.2, hp⟩]
  rfl

@[simp] theorem framed_watched (frame : Frame) (x : Claiming α) :
    framed (some frame) (watched x) = watched (tryCatch x fun e => throw (e.within frame)) := by
  funext claimed
  have hrun : (watched x).run claimed = answered (x.run claimed) := rfl
  show framed (some frame) (watched x) claimed = answered ((tryCatch (x.run claimed) _ : Outcome _))
  rw [framed, hrun]
  cases x.run claimed <;> rfl

end

/-! ## Regenerating the blocks of a text -/

/-- The step of a trail that stands for resolving a marker. -/
def frame (source : Text) (m : Marker) : Option Frame := do
  let place ← locate source m.openAt m.tokens.opener.length
  return { action := match m.family with
             | .generation => .generation
             | .edit => .reinsertion
           marker := m.tokens.quote (m.header.abbreviate 50), line := place.line, column := place.column }

/-- The body of an edit, if there is one. -/
def editContent (e : EditBlock) : Option (Option Text) :=
  match e.replacement with
  | some body => some body
  | none => content e.block

/-- The body of the edit of a name in the outermost text that has it. -/
def poolContent (pool : Pool) (name : Text) : Option (Option Text) :=
  match pool.find? name with
  | some e => editContent e
  | none => some none

/-- Asks for the edit that a marker names. It can be asked for once. -/
def claim (run : Run) (source : Text) (pool : Pool) (m : Marker) : Watched (Option Text) := do
  let claimed ← get
  if m.name ∈ claimed then
    failAt (.repeatedEdit m.quoted) (locate source m.openAt m.tokens.opener.length)
  else
    set (m.name :: claimed)
    match run.overrides.lookup m.name with
    | some body => return some body
    | none => liftM (poolContent pool m.name)

/-- What a marker yields before it is evaluated. -/
def yielded (run : Run) (source : Text) (pool : Pool) (m : Marker) : Watched (Option Text) :=
  match m.family with
  | .edit => claim run source pool m
  | .generation =>
    if m.headerEmpty then return none
    else
      match run.render m.header with
      | .ok t => return some t
      | .error e => framed (frame source m) (watched (throw { cause := .template e }))

/-- Evaluates what came of a marker. -/
abbrev Evaluator := (source : Text) → Marker → Pool → Text → Watched Text

/-- The new content of a block, or nothing. -/
def resolve (run : Run) (evaluate : Evaluator) (source : Text) (pool : Pool) (m : Marker) : Watched (Option Text) := do
  match ← yielded run source pool m with
  | none => return none
  | some t =>
    if t.isEmpty then return some []
    else
      let evaluated ← framed (frame source m) (evaluate source m pool t)
      let content := Run.dropFinalNewline evaluated
      return if run.removeMarkers && content.isEmpty then none else some content

/-- What stands between the spans of a block with this content. -/
def fill (run : Run) (source : Text) (b : Block) (content? : Option Text) : Guarded Text :=
  if b.isInline then
    let content := content?.getD []
    if newline ∈ content then
      failAt .bodyMustBeInline (locate source b.opening.openAt b.opening.tokens.opener.length)
    else if run.removeMarkers then return content
    else return [space] ++ content ++ [space]
  else
    match content? with
    | none => return []
    | some content => do
      let margin ← bodyIndent b.opening
      return Text.indent margin content ++ [newline]

/-- What is written for a span of a marker. -/
def kept (run : Run) (source : Text) (s : Span) : Option Text :=
  if run.removeMarkers then some [] else span source s.start s.stop

/-- The rest of a text, from an offset on, with the bodies of the outermost of the blocks to come filled anew, given
how many blocks are open. -/
def walk (run : Run) (source : Text) (resolve : Marker → Watched (Option Text)) :
    (nesting offset : Nat) → List Mark → Watched Text
  | _, offset, [] => liftM (span source offset source.length)
  | nesting, offset, .ending b :: rest =>
    if nesting ≤ 1 then do
      let back ← kept run source b.endSpan
      let after ← walk run source resolve 0 b.endSpan.stop rest
      return back ++ after
    else walk run source resolve (nesting - 1) offset rest
  | nesting, offset, .opening b :: rest =>
    if nesting = 0 then do
      let before ← span source offset b.openSpan.start
      let front ← kept run source b.openSpan
      let content? ← resolve b.opening
      let body ← fill run source b content?
      let after ← walk run source resolve 1 offset rest
      return before ++ front ++ body ++ after
    else walk run source resolve (nesting + 1) offset rest

/-- Regenerates the outermost blocks of a document. -/
def directive (run : Run) (evaluate : Evaluator) (pool : Pool) (d : Document) : Watched Text :=
  walk run d.source (resolve run evaluate d.source pool) 0 0 d.marks

/-- Reads a text and regenerates its blocks, with `levels` further levels allowed beneath the one of the marker it came
from. -/
def evaluate (run : Run) : (levels : Nat) → Evaluator
  | 0, source, m, _, _ =>
    failAt (.tooDeeplyNested run.settings.maxDepth) (locate source m.openAt m.tokens.opener.length)
  | levels + 1, _, _, pool, t => do
    let d ← parse run.settings t
    directive run (evaluate run levels) (pool.beneath d.edits) d

/-- Regenerates the blocks of a text that no marker produced. -/
def outermost (run : Run) (pool : Pool) (d : Document) : Watched Text :=
  directive run (evaluate run run.settings.maxDepth) pool d

end Checked

/-- **A generation all of whose texts are written in characters**: its settings, the bodies that come from outside, and
whatever is rendered. -/
structure Run.Encoded (run : Run) : Prop where
  /-- The tokens of the settings are. -/
  settings : run.settings.Encoded
  /-- What is rendered is. -/
  render {t rendered : Text} : run.render t = .ok rendered → rendered.Encoded
  /-- The overrides are. -/
  overrides : ∀ p ∈ run.overrides, p.2.Encoded

/-- The edits at hand are written in characters. -/
def Pool.Encoded (pool : Pool) : Prop := ∀ edits ∈ pool, ∀ e ∈ edits, e.Encoded

namespace Checked

theorem frame_eq {source : Text} (hsource : source.Encoded) (m : Marker) :
    frame source m = some (.ofMarker source m) := by
  rw [frame, locate_eq hsource]
  rfl

theorem editContent_eq {e : EditBlock} (he : e.Encoded) :
    editContent e = some e.content ∧ ∀ x ∈ e.content, x.Encoded := by
  obtain ⟨hcontent, hencoded⟩ := content_eq he.body
  have hreplacement := he.replacement
  rw [editContent, EditBlock.content]
  cases he : e.replacement with
  | none => exact ⟨hcontent, hencoded⟩
  | some body => exact ⟨rfl, by simpa [he] using hreplacement⟩

theorem poolContent_eq {pool : Pool} (hpool : pool.Encoded) (name : Text) :
    poolContent pool name = some (pool.content name) ∧ ∀ x ∈ pool.content name, x.Encoded := by
  rw [poolContent, Pool.content]
  cases hfind : pool.find? name with
  | none => exact ⟨rfl, by simp⟩
  | some e =>
    obtain ⟨edits, hedits, hget⟩ := List.exists_of_findSome?_eq_some hfind
    exact editContent_eq (hpool edits hedits e (List.mem_of_find?_eq_some hget))

section

variable {run : Run} (hrun : run.Encoded) {source : Text} (hsource : source.Encoded) {pool : Pool}
  (hpool : pool.Encoded)
include hsource hpool

theorem claim_eq (m : Marker) : claim run source pool m = watched (run.claim source pool m) := by
  rw [claim, Run.claim, show (get : Watched (List Text)) = watched get from rfl]
  refine watched_bind_eq fun claimed _ => ?_
  split
  next =>
    rw [locate_eq hsource]
    rfl
  next =>
    rw [show (set (m.name :: claimed) : Watched PUnit) = watched (set (m.name :: claimed)) from rfl]
    refine watched_bind_eq fun _ _ => ?_
    cases run.overrides.lookup m.name with
    | some body => rfl
    | none =>
      dsimp only
      rw [(poolContent_eq hpool m.name).1]
      rfl

theorem yielded_eq (m : Marker) : yielded run source pool m = watched (run.yielded source pool m) := by
  rw [yielded, Run.yielded]
  cases m.family with
  | edit => exact claim_eq hsource hpool m
  | generation =>
    dsimp only
    split
    next => rfl
    cases run.render m.header with
    | ok t => rfl
    | error e =>
      dsimp only
      rw [frame_eq hsource]
      rfl

include hrun

omit hsource in
/-- What a marker yields is written in characters. -/
theorem encoded_of_yielded {m : Marker} {c c' : List Text} {x : Text}
    (h : (run.yielded source pool m).run c = .ok (some x, c')) : x.Encoded := by
  cases hm : m.family with
  | edit =>
    obtain ⟨-, -, hx⟩ := (Run.yielded_edit_eq_ok_iff hm).1 h
    cases hlookup : run.overrides.lookup m.name with
    | some body =>
      rw [hlookup] at hx
      cases hx
      obtain ⟨front, back, hsplit, -⟩ := List.lookup_eq_some_iff.1 hlookup
      exact hrun.overrides (m.name, x) (by simp [hsplit])
    | none =>
      rw [hlookup] at hx
      exact (poolContent_eq hpool m.name).2 x hx.symm
  | generation =>
    obtain ⟨-, hx⟩ := (Run.yielded_generation_eq_ok_iff hm).1 h
    split at hx
    · cases hx
    · obtain ⟨r, hr, hx⟩ := hx
      cases hx
      exact hrun.render hr

/-- **Resolving a marker is never out of range** if evaluating what it yields is not. -/
theorem resolve_eq {evaluate : Evaluator} {evaluate' : Run.Evaluator} {m : Marker}
    (hevaluate : ∀ t : Text, t.Encoded → evaluate source m pool t = watched (evaluate' source m pool t)) :
    resolve run evaluate source pool m = watched (run.resolve evaluate' source pool m) := by
  rw [resolve, Run.resolve, yielded_eq hsource hpool]
  refine watched_bind_eq fun yield? hyield => ?_
  cases yield? with
  | none => rfl
  | some t =>
    obtain ⟨c, c', hyield⟩ := hyield
    dsimp only
    split
    next => rfl
    rw [frame_eq hsource, hevaluate t (encoded_of_yielded hrun hpool hyield), framed_watched]
    exact watched_bind_eq fun evaluated _ => rfl

omit hrun hpool in
theorem fill_eq (run : Run) (b : Block) (content? : Option Text) :
    fill run source b content? = answered (run.fill source b content?) := by
  cases hinline : b.isInline with
  | true =>
    simp only [fill, Run.fill, hinline, if_true, locate_eq hsource, failAt_some]
    split
    · rfl
    · split <;> rfl
  | false =>
    simp only [fill, Run.fill, hinline, Bool.false_eq_true, if_false, bodyIndent_eq]
    cases content? <;> rfl

end

section

variable {source : Text}

theorem kept_eq (run : Run) {s : Span} (hstart : source.isCharStart s.start = true)
    (hstop : source.isCharStart s.stop = true) : kept run source s = some (run.kept source s) := by
  rw [kept, Run.kept, span_eq_extract hstart hstop]
  split <;> rfl

/-- Inside of a block nothing is done. -/
theorem walk_nested (run : Run) (resolve : Marker → Watched (Option Text)) {t : Text} {depth : Nat}
    {marks : List Mark} (h : Nested t depth marks) (nesting offset : Nat) (rest : List Mark) :
    walk run source resolve (nesting + 1) offset (marks ++ rest)
      = walk run source resolve (nesting + 1) offset rest := by
  induction h generalizing nesting rest with
  | nil => rfl
  | @block depth b inner more _ _ _ ihInner ihMore =>
    rw [List.cons_append, List.append_assoc, walk, if_neg (Nat.succ_ne_zero nesting), ihInner, List.cons_append, walk,
      if_neg (by omega), Nat.add_sub_cancel, ihMore]

/-- **Walking over the marks of a text** comes to the same as filling its outermost blocks anew. -/
theorem walk_eq (hsource : source.Encoded) (run : Run) {resolve : Marker → Watched (Option Text)}
    {resolve' : Marker → Claiming (Option Text)} (hresolve : ∀ m, resolve m = watched (resolve' m))
    {previous? : Option Block} {marks : List Mark} (h : Outermost source previous? marks)
    (hcut : ∀ m ∈ marks, m.block.Cut source) {offset : Nat} (hoffset : source.isCharStart offset = true) :
    walk run source resolve 0 offset marks = watched (run.splice source resolve' offset (Mark.outermost marks)) := by
  induction h generalizing offset with
  | nil =>
    rw [walk, span_eq_extract hoffset source.isCharStart_length, extract_length]
    rfl
  | @block previous? b inner rest henclosed _ _ ih =>
    have hb : b.Cut source := hcut (.opening b) (by simp)
    have hrest := ih (fun m hm => hcut m (by simp [hm])) hb.endStop
    obtain ⟨q, hinside, -⟩ := henclosed.layout
    rw [Mark.outermost_block henclosed, walk, if_pos rfl, Run.splice, span_eq_extract hoffset hb.openStart,
      lift_some_watched_bind, kept_eq run hb.openStart hb.openStop, lift_some_watched_bind, hresolve]
    refine watched_bind_eq fun content? _ => ?_
    rw [fill_eq hsource, lift_answered]
    refine watched_bind_eq fun body _ => ?_
    rw [walk_nested run resolve hinside.nested 0, walk, if_pos (Nat.le_refl 1), kept_eq run hb.endStart hb.endStop,
      lift_some_watched_bind, hrest, bind_assoc]
    refine watched_bind_eq fun after _ => ?_
    rw [pure_bind, pure_eq_watched, ← List.append_assoc]

end

/-- **Regenerating the blocks of a document is never out of range** if resolving a marker is not. -/
theorem directive_eq {run : Run} (hrun : run.Encoded) {evaluate : Evaluator} {evaluate' : Run.Evaluator} {pool : Pool}
    (hpool : pool.Encoded) {d : Document} (hd : d.Cut)
    (hevaluate : ∀ m (t : Text), t.Encoded → evaluate d.source m pool t = watched (evaluate' d.source m pool t)) :
    directive run evaluate pool d = watched (run.directive evaluate' pool d) :=
  walk_eq hd.source run (fun m => resolve_eq hrun hd.source hpool (hevaluate m)) hd.arranged hd.blocks
    hd.source.isCharStart_zero

/-- **Evaluating a text is never out of range**, however many levels are allowed. -/
theorem evaluate_eq {run : Run} (hrun : run.Encoded) (levels : Nat) {source : Text} (hsource : source.Encoded)
    (m : Marker) {pool : Pool} (hpool : pool.Encoded) {t : Text} (ht : t.Encoded) :
    evaluate run levels source m pool t = watched (run.evaluate levels source m pool t) := by
  induction levels generalizing source m pool t with
  | zero =>
    rw [evaluate, Run.evaluate, locate_eq hsource]
    rfl
  | succ levels ih =>
    rw [evaluate, Run.evaluate, parse_eq hrun.settings ht, lift_answered]
    refine watched_bind_eq fun d hparse => ?_
    have hd : d.Cut := by
      obtain ⟨c, c', hparse⟩ := hparse
      exact cut_of_parse hrun.settings ht (Claiming.run_lift_eq_ok_iff.1 hparse).1
    have hbeneath : (pool.beneath d.edits).Encoded := by
      intro edits hedits
      rcases List.mem_append.1 hedits with hedits | hedits
      · exact hpool edits hedits
      · rw [List.mem_singleton.1 hedits]
        exact hd.edits
    exact directive_eq hrun hbeneath hd fun m t ht => ih hd.source m hbeneath ht

theorem outermost_eq {run : Run} (hrun : run.Encoded) {pool : Pool} (hpool : pool.Encoded) {d : Document}
    (hd : d.Cut) : outermost run pool d = watched (run.outermost pool d) :=
  directive_eq hrun hpool hd fun m _ ht => evaluate_eq hrun run.settings.maxDepth hd.source m hpool ht

end Checked

end Regen
