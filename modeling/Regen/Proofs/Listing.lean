import Regen.Command.Run
import Regen.Proofs.Body
import Regen.Proofs.Counterparts
import Regen.Proofs.Files
import Regen.Proofs.PlainEnds
import Regen.Proofs.Recovery

/-!
# Edits that are listed and edits that are recovered

A file with edits is read in two ways. Who asks for its edits, by the command or otherwise, is answered from the
file as it is. A file that is an earlier output is read with plain line ends, and the edits in it are recovered
for the next one. **Both find the same edits** if all line ends are plain, and otherwise under a condition on
tokens and headers alone (`Master.listed_recovered`). What they can differ in is the bodies: a body keeps the
carriage returns of its lines only where it is listed.

The bodies are compared by their parts. What stands between the markers of a block is read with plain line ends
part by part (`Parted.normalizeNewlines`), and the last line of a body loses the carriage return that stands
before the line feed behind it (`Text.readBody`). Indentation is taken off alike, and takes no carriage return
along, so **the contents agree exactly if no line of a body ends in one** (`Block.readContent_eq_iff`).
-/

namespace Regen

open Text (newline carriageReturn space)

/-! ## Bodies -/

namespace Text

variable {t u v : Text}

/-- **What a body is with plain line ends.** A body of whole lines stands in front of a line feed, which takes
the carriage return at the end of the body along. -/
def readBody (isInline : Bool) (body : Text) : Text :=
  if isInline then body.normalizeNewlines else body.dropReturn.normalizeNewlines

/-- The line ends on either side of a space are made plain. -/
theorem normalizeNewlines_append_space (u v : Text) :
    normalizeNewlines (u ++ space :: v) = u.normalizeNewlines ++ space :: v.normalizeNewlines := by
  have hcut : CleanCut u (space :: v) := fun _ h => absurd h (by simp [space, newline])
  rw [normalizeNewlines_append hcut, normalizeNewlines_cons fun h => absurd h (by decide)]

end Text

/-- **The parts of the text between two markers** are those of the text with plain line ends. -/
theorem Parted.normalizeNewlines {isInline : Bool} {front region back body : Text}
    (h : Parted isInline front region back body) :
    ∃ front' region' back', Text.normalizeNewlines (front ++ region ++ back) = front' ++ region' ++ back' ∧
      Parted isInline front' region' back' (Text.readBody isInline body) := by
  have hspace : ∀ {x : Text}, space ∉ x → space ∉ x.normalizeNewlines :=
    fun hx h => hx ((Text.mem_normalizeNewlines_iff (by decide)).1 h)
  have hline : ∀ {x : Text}, newline ∉ x → newline ∉ x.dropReturn.normalizeNewlines :=
    fun hx => by simpa using Text.newline_notMem_dropReturn hx
  cases h with
  | bare hbody => exact ⟨[], _, [], by simp [Text.readBody], .bare (hspace hbody)⟩
  | @single front back hfront hback =>
    refine ⟨_, _, _, ?_, .single (hspace hfront) (hspace hback)⟩
    rw [← List.append_cons, Text.normalizeNewlines_append_space, List.append_cons]
  | @padded front body back hfront hback =>
    refine ⟨_, _, _, ?_, .padded (hspace hfront) (hspace hback)⟩
    rw [show front ++ space :: (body ++ [space]) ++ back = front ++ space :: (body ++ space :: back) by simp,
      Text.normalizeNewlines_append_space, Text.normalizeNewlines_append_space]
    simp [Text.readBody]
  | @empty front back hfront hback =>
    refine ⟨_, _, _, ?_, .empty (hline hfront) (show newline ∉ back.normalizeNewlines by simpa)⟩
    rw [List.append_nil, ← List.append_cons, Text.normalizeNewlines_append_newline]
    simp
  | @lines front body back hfront hback =>
    refine ⟨_, _, _, ?_, .lines (hline hfront) (show newline ∉ back.normalizeNewlines by simpa)⟩
    rw [show front ++ [newline] ++ (body ++ [newline]) ++ back = front ++ newline :: (body ++ newline :: back) by
      simp, Text.normalizeNewlines_append_newline, Text.normalizeNewlines_append_newline]
    simp [Text.readBody]

/-! ## Plain bodies -/

namespace Text

variable {t u v : Text}

/-- Nothing but carriage returns is dropped, one byte each. -/
theorem length_normalizeNewlines (t : Text) :
    t.normalizeNewlines.length + t.count carriageReturn = t.length + t.normalizeNewlines.count carriageReturn := by
  induction t with
  | nil => rfl
  | cons b t ih =>
    by_cases hb : b = carriageReturn ∧ t.head? = some newline
    · obtain ⟨rfl, hhead⟩ := hb
      rw [normalizeNewlines_of_head? hhead, List.count_cons_self, List.length_cons]
      omega
    · rw [normalizeNewlines_cons fun h h' => hb ⟨h, h'⟩, List.length_cons, List.length_cons, List.count_cons,
        List.count_cons]
      omega

/-- No text gets longer. -/
theorem length_normalizeNewlines_le (t : Text) : t.normalizeNewlines.length ≤ t.length := by
  induction t with
  | nil => rfl
  | cons b t ih =>
    rw [normalizeNewlines]
    split
    · exact ih.trans (Nat.le_succ _)
    · exact Nat.succ_le_succ ih

/-- **A text that keeps its carriage returns has plain line ends.** -/
theorem EndsPlain.of_count_eq (h : t.normalizeNewlines.count carriageReturn = t.count carriageReturn) :
    EndsPlain t := by
  have hlength : t.normalizeNewlines.length = t.length := by
    have := length_normalizeNewlines t
    omega
  rintro u v rfl hu
  obtain ⟨w, rfl⟩ := List.getLast?_eq_some_iff.1 hu
  have hw := length_normalizeNewlines_le w
  have hv := length_normalizeNewlines_le v
  rw [normalizeNewlines_append_newline, dropReturn, if_pos hu, List.dropLast_concat] at hlength
  simp only [List.length_append, List.length_cons, List.length_nil] at hlength
  omega

/-- A body with what ends its last line. A body on one line has no such line. -/
def wholeBody (isInline : Bool) (body : Text) : Text := if isInline then body else body ++ [newline]

/-- **A body is read together with the line feed behind it.** -/
theorem normalizeNewlines_wholeBody (isInline : Bool) (body : Text) :
    (wholeBody isInline body).normalizeNewlines = wholeBody isInline (readBody isInline body) := by
  cases isInline with
  | true => rfl
  | false => exact normalizeNewlines_append_newline body []

/-- **A body in which no line ends in a carriage return** is read as it is. -/
theorem EndsPlain.readBody_eq {isInline : Bool} {body : Text} (h : EndsPlain (wholeBody isInline body)) :
    readBody isInline body = body := by
  have hwhole := normalizeNewlines_wholeBody isInline body
  rw [h.normalizeNewlines_eq] at hwhole
  cases isInline with
  | true => exact hwhole.symm
  | false => exact (List.append_cancel_right hwhole).symm

/-- A body that keeps its carriage returns has none at the end of a line. -/
theorem EndsPlain.of_count_readBody_eq {isInline : Bool} {body : Text}
    (h : (readBody isInline body).count carriageReturn = body.count carriageReturn) :
    EndsPlain (wholeBody isInline body) := by
  refine .of_count_eq ?_
  rw [normalizeNewlines_wholeBody]
  cases isInline with
  | true => exact h
  | false => rw [wholeBody, wholeBody, if_neg nofun, if_neg nofun, List.count_append, List.count_append, h]

/-- Taking off indentation leaves the carriage returns of a line. -/
theorem count_dedentLine (column : Nat) (line : Text) :
    (dedentLine column line).count carriageReturn = line.count carriageReturn := by
  have hindent : carriageReturn ∉ (line.take column).takeWhile isIndent :=
    fun h => absurd (List.mem_takeWhile_imp h) (by decide)
  have hprefix := (List.takeWhile_prefix isIndent).trans (List.take_prefix column line)
  rw [dedentLine]
  generalize (line.take column).takeWhile isIndent = indent at hindent hprefix
  obtain ⟨rest, rfl⟩ := hprefix
  rw [List.drop_left, List.count_append, List.count_eq_zero_of_not_mem hindent, Nat.zero_add]

/-- Taking off indentation leaves the carriage returns of a text. -/
theorem count_dedent (column : Nat) (t : Text) :
    (dedent column t).count carriageReturn = t.count carriageReturn := by
  induction t using line_induction with
  | last line hline =>
    rw [dedent, lines_of_notMem hline, List.map_singleton, ofLines_singleton, count_dedentLine]
  | more line rest hline ih =>
    have hne : (lines rest).map (dedentLine column) ≠ [] := by simpa using lines_ne_nil rest
    rw [dedent] at ih
    rw [dedent, lines_append_newline hline, List.map_cons, ofLines_cons _ hne, List.count_append,
      List.count_append, List.count_cons, List.count_cons, ih, count_dedentLine]

end Text

/-! ## Blocks -/

namespace Block

/-- The block with another body. -/
def withBody (b : Block) (body : Text) : Block := { b with body }

/-- **The content of a block with plain line ends.** -/
def readContent (b : Block) : Option Text := (b.withBody (Text.readBody b.isInline b.body)).content

/-- **A plain body**: no line of it ends in a carriage return, the last one included. -/
def PlainBody (b : Block) : Prop := Text.EndsPlain (Text.wholeBody b.isInline b.body)

instance (b : Block) : Decidable b.PlainBody := inferInstanceAs (Decidable (Text.EndsPlain _))

/-- Bodies that make the same content have as many carriage returns. -/
theorem count_eq_of_content_eq {b : Block} {x y : Text} (h : (b.withBody x).content = (b.withBody y).content) :
    x.count carriageReturn = y.count carriageReturn := by
  have hnone : ∀ {z : Text}, z ≠ [] → (b.withBody z).content ≠ none := by
    intro z hz
    cases hinline : b.isInline <;> simp [content, withBody, hz, hinline]
  by_cases hx : x = [] <;> by_cases hy : y = []
  · rw [hx, hy]
  · rw [hx] at h
    exact absurd h.symm (hnone hy)
  · rw [hy] at h
    exact absurd h (hnone hx)
  · cases hinline : b.isInline with
    | true =>
      have hxy : x = y := by simpa [content, withBody, hx, hy, hinline] using h
      rw [hxy]
    | false =>
      have hxy : Text.dedent b.opening.bodyColumn x = Text.dedent b.opening.bodyColumn y := by
        simpa [content, withBody, hx, hy, hinline] using h
      rw [← Text.count_dedent b.opening.bodyColumn x, hxy, Text.count_dedent]

/-- **The content of a block is the same with plain line ends exactly if its body is plain.** -/
theorem readContent_eq_iff (b : Block) : b.readContent = b.content ↔ b.PlainBody := by
  constructor
  · exact fun h => .of_count_readBody_eq (count_eq_of_content_eq h)
  · intro h
    rw [readContent, h.readBody_eq]
    rfl

/-- The body of a block that stands in a text is made by the parts of what is between its markers. -/
theorem Stands.body_eq {s : Settings} {b : Block} {pre front region back body post : Text}
    (hb : b.Stands s (pre ++ (front ++ region ++ back) ++ post))
    (hparted : Parted b.isInline front region back body) (hopening : b.opening.closeEnd = pre.length)
    (hending : b.ending.openAt = (pre ++ (front ++ region ++ back)).length) : b.body = body := by
  have hlead := hb.ending.lead
  rw [hending, List.take_left] at hlead
  have hencases := hparted.encases post b.depth hopening hending hlead
  rw [← hb.formed] at hencases
  exact hencases.body

/-- **The body of a block with plain line ends** is that of the block that corresponds to it. -/
theorem Stands.body_readAs {s : Settings} {t : Text} {b b' : Block} (hb : b.Stands s t)
    (hb' : b'.Stands s t.normalizeNewlines) (h : b.Counterpart (Marker.ReadAs t) b') :
    b'.body = Text.readBody b.isInline b.body := by
  obtain ⟨x, w, y, rfl, hopening, hending, hopening', hending', ht⟩ :=
    h.opening.closeEnd.exists_between h.ending.openAt hb.before.ordered
  have hnewline : b.isInline = false → newline ∈ w := by
    intro hlines
    have hmem := hb.before.newline (.inl hlines)
    rwa [Mark.marker, Mark.marker, hopening, hending, List.length_append, Text.extract_append] at hmem
  obtain ⟨front, region, back, body, rfl, hparted⟩ := exists_parted b.isInline hnewline
  obtain ⟨front', region', back', hw, hparted'⟩ := hparted.normalizeNewlines
  rw [hw] at hending' ht
  rw [ht] at hb'
  rw [hb.body_eq hparted hopening hending]
  exact hb'.body_eq (by rwa [h.isInline]) hopening' hending'

/-- **The block that corresponds to a block with plain line ends** has its content with plain line ends. -/
theorem Stands.content_readAs {s : Settings} {t : Text} {b b' : Block} (hb : b.Stands s t)
    (hb' : b'.Stands s t.normalizeNewlines) (h : b.Counterpart (Marker.ReadAs t) b') :
    b'.content = b.readContent := by
  have hcolumn : b'.opening.bodyColumn = b.opening.bodyColumn := by
    rw [Marker.bodyColumn, Marker.commentColumn, Marker.column, h.opening.tokens, h.opening.lead]
    rfl
  rw [content, hb.body_readAs hb' h, h.isInline, hcolumn]
  rfl

end Block

/-! ## Markers that correspond -/

/-- **A marker and the same marker with plain line ends correspond.** -/
theorem Marker.ReadAs.correspond (t : Text) : Marker.Correspond t t.normalizeNewlines (Marker.ReadAs t) where
  isEnd hm := hm.isEnd
  family hm := hm.family
  name hm := hm.name
  onSameLine hp hm := by
    simp only [Pairing.onSameLine, hp.closeEnd.extract hm.openAt, Text.newline_mem_normalizeNewlines]

/-! ## Documents -/

/-- **What edits are listed with**: the name of each, and its body if it has one. -/
def Edits.contents (edits : Edits) : List (Text × Option Text) := edits.map fun e => (e.name, e.content)

/-- What the edits of a document are listed with if the document is read with plain line ends. -/
def Edits.readContents (edits : Edits) : List (Text × Option Text) :=
  edits.map fun e => (e.name, e.block.readContent)

/-- The bodies among names and bodies. -/
def Edits.bodiesOf (contents : List (Text × Option Text)) : List (Text × Text) :=
  contents.filterMap fun c => c.2.map (c.1, ·)

/-- The bodies by name are among what edits are listed with. -/
theorem Edits.bodies_eq (edits : Edits) : edits.bodies = bodiesOf edits.contents := by
  rw [bodies, bodiesOf, contents, List.filterMap_map]
  rfl

/-- A body has its name among the names. -/
theorem Edits.mem_of_mem_bodiesOf {xs : List (Text × Option Text)} {n c : Text} (h : (n, c) ∈ bodiesOf xs) :
    n ∈ xs.map Prod.fst := by
  obtain ⟨x, hx, hc⟩ := List.mem_filterMap.1 h
  obtain ⟨c', -, hcons⟩ := Option.map_eq_some_iff.1 hc
  exact List.mem_map.2 ⟨x, hx, (Prod.ext_iff.1 hcons).1⟩

/-- **What is listed by distinct names can be told from the bodies.** -/
theorem Edits.eq_of_bodiesOf_eq {xs ys : List (Text × Option Text)} (hnodup : (xs.map Prod.fst).Nodup)
    (hnames : ys.map Prod.fst = xs.map Prod.fst) (h : bodiesOf ys = bodiesOf xs) : ys = xs := by
  induction xs generalizing ys with
  | nil => exact List.map_eq_nil_iff.1 hnames
  | cons x xs ih =>
    obtain ⟨y, ys, rfl, hname, hmore⟩ := List.map_eq_cons_iff.1 hnames
    obtain ⟨n, c?⟩ := x
    obtain ⟨n', c'?⟩ := y
    obtain rfl : n' = n := hname
    obtain ⟨hnotMem, hrest⟩ := List.nodup_cons.1 hnodup
    cases c? with
    | none =>
      cases c'? with
      | none => rw [ih hrest hmore h]
      | some c' =>
        have hxs : (n', c') :: bodiesOf ys = bodiesOf xs := h
        exact absurd (mem_of_mem_bodiesOf (hxs ▸ List.mem_cons_self)) hnotMem
    | some c =>
      cases c'? with
      | none =>
        have hys : bodiesOf ys = (n', c) :: bodiesOf xs := h
        exact absurd (hmore ▸ mem_of_mem_bodiesOf (hys ▸ List.mem_cons_self)) hnotMem
      | some c' =>
        have hboth : (n', c') :: bodiesOf ys = (n', c) :: bodiesOf xs := h
        obtain ⟨hc, htail⟩ := List.cons_eq_cons.1 hboth
        obtain rfl : c' = c := (Prod.ext_iff.1 hc).2
        rw [ih hrest hmore htail]

namespace Document

variable {s : Settings} {t : Text} {d d' : Document}

/-- The markers of a document are those that a scan finds. -/
theorem scanAll_of_parse (hd : parse s t = .ok d) : Marker.scanAll t s = .ok (d.marks.map Mark.marker) := by
  have husable := usable_of_parse hd
  have hlexed := exists_lexed_of_parse hd
  exact husable.scanAll_eq_ok_iff.2 hlexed

/-- The edits of a document are its edit blocks. -/
theorem map_edits (hd : parse s t = .ok d) {α : Type} (f : EditBlock → α) :
    d.edits.map f = (editBlocks d.marks).map fun b => f { source := t, block := b } := by
  have hedits := edits_of_parse hd
  rw [hedits, List.map_map]
  rfl

/-- **The edits of a document with plain line ends** are those of the document, with the bodies they have with
plain line ends. -/
theorem contents_readAs (hd : parse s t = .ok d) (hd' : parse s t.normalizeNewlines = .ok d')
    (hmarks : List.Forall₂ (Mark.Counterpart (Marker.ReadAs t)) d.marks d'.marks) :
    d'.edits.contents = d.edits.readContents := by
  rw [Edits.contents, Edits.readContents, map_edits hd, map_edits hd']
  refine map_eq_map_of_forall₂ (editBlocks_counterpart (Marker.ReadAs.correspond t) hmarks)
    fun b hb b' hb' h => ?_
  have hname : b'.name = b.name := h.2.opening.name h.1
  have hcontent := (stands_of_mem_blocks hd b (List.mem_of_mem_filter hb)).content_readAs
    (stands_of_mem_blocks hd' b' (List.mem_of_mem_filter hb')) h.2
  exact Prod.ext hname hcontent

/-- **Edits have the same names and bodies with plain line ends exactly if their bodies are plain.** -/
theorem readContents_eq_iff (hd : parse s t = .ok d) :
    d.edits.readContents = d.edits.contents ↔ ∀ e ∈ d.edits, e.block.PlainBody := by
  have hedits := edits_of_parse hd
  rw [Edits.readContents, Edits.contents, List.map_inj_left, hedits]
  simp only [List.forall_mem_map]
  refine forall₂_congr fun b _ => ?_
  rw [← b.readContent_eq_iff, Prod.mk.injEq, and_iff_right rfl]
  rfl

/-- **Edits have the same bodies by name** exactly then. -/
theorem bodies_eq_iff (hd : parse s t = .ok d) {edits : Edits} (h : edits.contents = d.edits.readContents) :
    edits.bodies = d.edits.bodies ↔ ∀ e ∈ d.edits, e.block.PlainBody := by
  have hnames : d.edits.contents.map Prod.fst = d.edits.map EditBlock.name := List.map_map
  have hnames' : edits.contents.map Prod.fst = d.edits.contents.map Prod.fst := by
    rw [hnames, h]
    exact List.map_map
  rw [← readContents_eq_iff hd, ← h, Edits.bodies_eq, Edits.bodies_eq]
  exact ⟨Edits.eq_of_bodiesOf_eq (hnames ▸ nodup_edits hd) hnames', congrArg _⟩

/-- **A text is read exactly if it is with plain line ends**, and then the edits differ in the line ends of their
bodies only. -/
theorem parse_normalizeNewlines (hs : s.Unbroken) (hheaders : t.HeadersReadPlain s) :
    (∃ d d', parse s t = .ok d ∧ parse s t.normalizeNewlines = .ok d' ∧
      d'.edits.contents = d.edits.readContents) ∨
    (parse s t).isOk = false ∧ (parse s t.normalizeNewlines).isOk = false := by
  have hcorrespond := Marker.ReadAs.correspond t
  cases hd : parse s t with
  | ok d =>
    have husable := usable_of_parse hd
    obtain ⟨hscan, -⟩ := Marker.scanAll_normalizeNewlines hs husable hheaders
    obtain ⟨ms', hms', hrel⟩ := hscan _ (scanAll_of_parse hd)
    obtain ⟨d', hd', hmarks⟩ := exists_counterpart hcorrespond hd hms' hrel
    exact .inl ⟨d, d', rfl, hd', contents_readAs hd hd' hmarks⟩
  | error f =>
    refine .inr ⟨rfl, ?_⟩
    cases hd' : parse s t.normalizeNewlines with
    | error f' => rfl
    | ok d' =>
      -- the text with plain line ends cannot be read alone
      have husable := usable_of_parse hd'
      obtain ⟨-, hscan⟩ := Marker.scanAll_normalizeNewlines hs husable hheaders
      obtain ⟨ms, hms, hrel⟩ := hscan _ (scanAll_of_parse hd')
      obtain ⟨d, hd'', -⟩ := exists_counterpart hcorrespond.flip hd' hms hrel.flip
      cases hd.symm.trans hd''

end Document

/-! ## Files -/

namespace Master

/-- **The edits that an output is regenerated with**, those of the earlier output at its path. -/
def suppliedAt (m : Master) (tree : FileTree) (p : Path) : Outcome Supplied := do
  match ← m.previousAt tree p with
  | some previous => m.recover previous
  | none => return {}

/-- The output for a file with these edits, and what writing it would do. -/
def previewWith (m : Master) (tree : FileTree) (r : Recipe) (p : Path) (supplied : Supplied) :
    Outcome Rendered := do
  let content ← m.renderWith r supplied
  let status ← Outcome.ofFile (tree.statusOf p (content.inFile m.newline))
  return { path := p, content, status }

variable {m : Master} {tree : FileTree} {p : Path} {t : Text}

/-- **A preview first recovers the edits** of the file at its path. -/
theorem preview_eq (m : Master) (tree : FileTree) (r : Recipe) (p : Path) :
    m.preview tree r (some p) = m.suppliedAt tree p >>= m.previewWith tree r p := by
  have hpath : m.outputPath (some p) = .ok p := rfl
  rw [preview, hpath, suppliedAt, bind_assoc]
  refine congrArg (m.previousAt tree p >>= ·) (funext fun previous? => ?_)
  cases previous? with
  | none => rfl
  | some previous =>
    rw [render, bind_assoc]
    rfl

/-- The edits of a file that is there are those of its text with plain line ends. -/
theorem suppliedAt_of_readText (hread : tree.readText p = .ok t) (hother : m.isInput tree p = false) :
    m.suppliedAt tree p = m.recover t := by
  have hfile : tree.isFile p = true := by
    rw [FileTree.isFile, (FileTree.readText_eq_ok_iff.1 hread).1]
    rfl
  rw [suppliedAt, previousAt, hfile, hother, hread]
  rfl

end Master

/-- The edits that are listed for a file that is there are those of its text. -/
theorem FileTree.editsAt_of_readText {tree : FileTree} {p : Path} {t : Text} (s : Settings)
    (hread : tree.readText p = .ok t) :
    tree.editsAt s p = do return (← Document.parse s t).edits := by
  rw [editsAt, hread]

namespace Command.Workplace

/-- **The answer that lists edits**, in one format or the other, or tells why there are none to list. -/
def listing (w : Workplace) (p : Path) (format : ListFormat) : Outcome Edits → Answer
  | .error f => w.refuse "" (.failure f)
  | .ok edits =>
    let stdout := match format with
      | .json => Json.render (objectOf edits) ++ "\n"
      | .text =>
        if edits.isEmpty then s!"No edit blocks found in {w.shown p}.\n"
        else String.join (edits.map w.listed)
    { code := 0, stdout, tree := w.tree }

/-- **The command lists the edits of a file.** -/
theorem edits_eq {w : Workplace} {file : Path} {t : Text} {s : Settings} {config? : Option Config}
    (hread : w.tree.readText (Path.join w.root file) = .ok t) (hsettings : w.settings = .ok (s, config?))
    (format : ListFormat) : w.edits file format
      = w.listing (Path.join w.root file) format (w.tree.editsAt s (Path.join w.root file)) := by
  rw [edits, FileTree.editsAt_of_readText s hread, hsettings, hread]
  dsimp only [bind, Except.bind, Outcome.ofFile]
  cases Document.parse s t <;> rfl

end Command.Workplace

/-! ## Listing and recovering -/

namespace Master

variable {m : Master} {tree : FileTree} {p : Path} {t : Text}

/-- **The edits that are listed for a file are those that are recovered from it as an earlier output**, and there
are none to list exactly if none can be recovered. A listing reads the file as it is, and a recovery with plain
line ends; so the two agree where all line ends are plain, and otherwise

* the same edits are found if no token holds a byte of a line end and all headers read alike, and neither
  succeeds alone;
* they have the same names, and the bodies differ by the carriage returns at the ends of their lines only;
* so they have the same bodies exactly if no line of a body ends in a carriage return.

The command lists the edits of the file, and a preview recovers them before all else. -/
theorem listed_recovered (hread : tree.readText p = .ok t) (hother : m.isInput tree p = false) :
    (∀ r, m.preview tree r (some p) = m.suppliedAt tree p >>= m.previewWith tree r p) ∧
    (∀ (w : Command.Workplace) file config? format, w.tree = tree → Path.join w.root file = p →
      w.settings = .ok (m.settings, config?) →
      w.edits file format = w.listing p format (tree.editsAt m.settings p)) ∧
    (t.EndsPlain → m.suppliedAt tree p = (tree.editsAt m.settings p).map fun edits => { recovered := edits }) ∧
    (m.settings.Unbroken → t.HeadersReadPlain m.settings →
      (∃ listed recovered, tree.editsAt m.settings p = .ok listed ∧
        m.suppliedAt tree p = .ok { recovered } ∧ recovered.contents = listed.readContents ∧
        (recovered.contents = listed.contents ↔ ∀ e ∈ listed, e.block.PlainBody) ∧
        (recovered.bodies = listed.bodies ↔ ∀ e ∈ listed, e.block.PlainBody)) ∨
      (tree.editsAt m.settings p).isOk = false ∧ (m.suppliedAt tree p).isOk = false) := by
  refine ⟨fun r => preview_eq m tree r p, ?_, ?_, ?_⟩
  · rintro w file config? format rfl rfl hsettings
    exact Command.Workplace.edits_eq hread hsettings format
  · intro hplain
    rw [suppliedAt_of_readText hread hother, recover, hplain.normalizeNewlines_eq,
      FileTree.editsAt_of_readText _ hread]
    cases Document.parse m.settings t <;> rfl
  · intro hunbroken hheaders
    rw [suppliedAt_of_readText hread hother, recover, FileTree.editsAt_of_readText _ hread]
    rcases Document.parse_normalizeNewlines hunbroken hheaders with ⟨d, d', hd, hd', hcontents⟩ | ⟨hd, hd'⟩
    · refine .inl ⟨d.edits, d'.edits, by rw [hd]; rfl, by rw [hd']; rfl, hcontents, ?_,
        Document.bodies_eq_iff hd hcontents⟩
      rw [hcontents]
      exact Document.readContents_eq_iff hd
    · refine .inr ⟨?_, ?_⟩
      · cases h : Document.parse m.settings t with
        | ok d => simp [h, Except.isOk, Except.toBool] at hd
        | error f => rfl
      · cases h : Document.parse m.settings t.normalizeNewlines with
        | ok d => simp [h, Except.isOk, Except.toBool] at hd'
        | error f => rfl

/-- Line ends of both kinds: carriage returns inside a header, beside markers, and inside a body. -/
def mixedText : Text :=
  "// [[[\r\n//  x\r\n// ]]]\r\n// <<[ a ]>>\r\n//  p\n// <<[ end ]>>\r\n// [[[ end ]]]\n" ++
    "<<[ b ]>>\nq\r\nr\n<<[ end ]>>\r\n"

/-- An edit in a text whose lines all end in carriage returns. -/
def returnedText : Text := "<<[ a ]>>\r\nx\r\ny\r\n<<[ end ]>>\r\n"

/-- A single file. -/
def oneFile (t : Text) : FileTree := { entries := [(["a"], .file t)] }

/-- A master without a file of its own. -/
def fileless : Master where
  document := { source := [], marks := [], edits := [] }
  settings := .standard
  mode := .directive
  input := none
  hadCarriageReturns := false

/-- **Two edits of a file with line ends of both kinds** are listed and recovered. A line in the body of the
second one ends in a carriage return, and so the bodies differ. -/
theorem listed_recovered_mixed :
    (oneFile mixedText).readText "/a" = .ok mixedText ∧ fileless.isInput (oneFile mixedText) "/a" = false ∧
      mixedText.HeadersReadPlain .standard ∧ ∃ listed recovered,
        (oneFile mixedText).editsAt .standard "/a" = .ok listed ∧
        fileless.suppliedAt (oneFile mixedText) "/a" = .ok { recovered } ∧
        listed.contents = [(("a" : Text), some ("//  p" : Text)), (("b" : Text), some ("q\r\nr" : Text))] ∧
        recovered.contents = [(("a" : Text), some ("//  p" : Text)), (("b" : Text), some ("q\nr" : Text))] ∧
        recovered.contents = listed.readContents ∧ ¬ ∀ e ∈ listed, e.block.PlainBody := by
  have hread : (oneFile mixedText).readText "/a" = .ok mixedText := by rfl
  have hother : fileless.isInput (oneFile mixedText) "/a" = false := rfl
  have hheaders : mixedText.HeadersReadPlain .standard := by decide +kernel
  obtain ⟨-, -, -, h⟩ := listed_recovered hread hother
  rcases h Settings.unbroken_standard hheaders with
    ⟨listed, recovered, hlisted, hrecovered, hcontents, hplain, -⟩ | ⟨hfails, -⟩
  · have hlist : listed.contents
        = [(("a" : Text), some ("//  p" : Text)), (("b" : Text), some ("q\r\nr" : Text))] := by
      have hrun : ((oneFile mixedText).editsAt fileless.settings "/a").toOption.map Edits.contents
          = some [(("a" : Text), some ("//  p" : Text)), (("b" : Text), some ("q\r\nr" : Text))] := by rfl
      rw [hlisted] at hrun
      exact Option.some.inj hrun
    have hrecover : recovered.contents
        = [(("a" : Text), some ("//  p" : Text)), (("b" : Text), some ("q\nr" : Text))] := by
      have hrun : (fileless.suppliedAt (oneFile mixedText) "/a").toOption.map (·.recovered.contents)
          = some [(("a" : Text), some ("//  p" : Text)), (("b" : Text), some ("q\nr" : Text))] := by rfl
      rw [hrecovered] at hrun
      exact Option.some.inj hrun
    refine ⟨by rfl, rfl, hheaders, listed, recovered, hlisted, hrecovered, hlist, hrecover, hcontents, ?_⟩
    rw [← hplain, hlist, hrecover]
    decide +kernel
  · cases hfails

/-- **A listing can show other bodies than a recovery finds**: where the lines of a file end in carriage returns,
those inside a body and the one at its end are listed with it. -/
theorem not_listed_recovered : ¬ ∀ (m : Master) (tree : FileTree) (p : Path) (t : Text),
    tree.readText p = .ok t → m.isInput tree p = false → ∀ listed supplied,
    tree.editsAt m.settings p = .ok listed → m.suppliedAt tree p = .ok supplied →
    supplied.recovered.bodies = listed.bodies := by
  intro h
  have hrun : ((fileless.suppliedAt (oneFile returnedText) "/a").toOption.map (·.recovered.bodies),
      ((oneFile returnedText).editsAt .standard "/a").toOption.map Edits.bodies)
      = (some [(("a" : Text), ("x\ny" : Text))], some [(("a" : Text), ("x\r\ny\r" : Text))]) := by rfl
  obtain ⟨supplied, hsupplied⟩ : ∃ supplied, fileless.suppliedAt (oneFile returnedText) "/a" = .ok supplied :=
    ⟨_, by rfl⟩
  obtain ⟨listed, hlisted⟩ : ∃ listed, (oneFile returnedText).editsAt .standard "/a" = .ok listed :=
    ⟨_, by rfl⟩
  have hbodies := h fileless _ "/a" _ (by rfl) rfl listed supplied hlisted hsupplied
  rw [hsupplied, hlisted] at hrun
  obtain ⟨hrecover, hlist⟩ := Prod.mk.inj hrun
  have heq := (Option.some.inj hrecover).symm.trans (hbodies.trans (Option.some.inj hlist))
  exact absurd heq (by decide +kernel)

end Master

end Regen
