import Regen.Proofs.PlainContent

/-!
# Regenerating a flat document again

A document is flat if no block encloses another (`Document.Flat`), and no header of several lines stands
behind something on its line. What its markers yield is plain, if the renderer never writes a token and
the bodies of its edits come from the document. Then the output is a flat document of the same blocks,
laid out alike, and whatever is asked for there is what was asked for before. So
regenerating the output gives the output, and so does regenerating the document with the edits of
the output (`Document.generate_again`).

That a header of several lines may not stand behind an inline body matters only if a closer ends in
a line feed, since otherwise the open marker is on the same line
(`Document.not_generate_again_of_closer`).
-/

namespace Regen

open Lexeme (ofText textOf markersFrom Lexed)
open Text (space newline)

/-! ## Flat marks -/

/-- The two marks of a block that encloses nothing. -/
def Block.marks (b : Block) : List Mark := [.opening b, .ending b]

namespace Outermost

variable {t : Text} {previous? : Option Block} {marks : List Mark}

/-- **If all blocks are outermost**, each opens and ends before the next. -/
theorem eq_flatMap (h : Outermost t previous? marks) (hflat : ∀ b ∈ Mark.blocks marks, b.depth = 1) :
    marks = (Mark.outermost marks).flatMap Block.marks ∧
      ∀ b ∈ Mark.outermost marks, Encloses t 1 b [] := by
  induction h with
  | nil => exact ⟨rfl, by simp [Mark.outermost]⟩
  | @block previous? b inner rest henclosed _ _ ih =>
    obtain rfl := henclosed.eq_nil fun c hc => hflat c (by simp [hc])
    obtain ⟨hrest, hblocks⟩ := ih fun c hc => hflat c (by simp [hc])
    rw [Mark.outermost_block henclosed, List.flatMap_cons, ← hrest, List.forall_mem_cons]
    exact ⟨rfl, henclosed, hblocks⟩

end Outermost

/-- The edits of blocks that enclose nothing are the blocks themselves. -/
theorem Marker.editNames_flatMap {t : Text} {bs : List Block} (h : ∀ b ∈ bs, Encloses t 1 b []) :
    editNames ((bs.flatMap Block.marks).map Mark.marker) = editNames (bs.map Block.opening) := by
  induction bs with
  | nil => rfl
  | cons b bs ih =>
    obtain ⟨hb, hbs⟩ := List.forall_mem_cons.1 h
    show editNames ((Mark.opening b :: ([] ++ .ending b :: bs.flatMap Block.marks)).map Mark.marker) = _
    rw [editNames_block hb.ends, ih hbs, List.map_nil, editNames_nil, List.append_nil,
      ← editNames_append]
    rfl

/-- The blocks are those that the marks belong to. -/
theorem Mark.mem_blocks_flatMap {bs : List Block} {b : Block} :
    b ∈ blocks (bs.flatMap Block.marks) ↔ b ∈ bs := by
  induction bs with
  | nil => simp
  | cons c bs ih => simp [Block.marks, ih]

/-- **Nothing is in a span** of a block that encloses nothing. -/
theorem Mark.spansApart_flatMap {s : Settings} {t : Text} {bs : List Block} (hs : Document.Usable s)
    (hbefore : (bs.flatMap Block.marks).Pairwise (Mark.Before t))
    (hstands : ∀ m ∈ bs.flatMap Block.marks, m.marker.Stands s t) :
    Mark.SpansApart (bs.flatMap Block.marks) := by
  have hwidth : ∀ m ∈ bs.flatMap Block.marks, m.marker.openAt < m.marker.closeEnd :=
    fun m hm => (hstands m hm).openAt_lt hs
  intro b hb _ m hm hle hle'
  obtain ⟨xs, ys, rfl⟩ := List.append_of_mem (Mark.mem_blocks_flatMap.1 hb)
  have hmarks : (xs ++ b :: ys).flatMap Block.marks
      = xs.flatMap Block.marks ++ (.opening b :: .ending b :: ys.flatMap Block.marks) := by
    simp [Block.marks]
  rw [hmarks] at hbefore hwidth hm
  obtain ⟨-, hbehind, hfront⟩ := List.pairwise_append.1 hbefore
  have hopening := hwidth (.opening b) (by simp)
  have hending := hwidth (.ending b) (by simp)
  have hwidth := hwidth m hm
  simp only [Mark.marker] at hopening hending
  rw [List.mem_append, List.mem_cons, List.mem_cons] at hm
  rcases hm with hm | rfl | rfl | hm
  · have hle : m.marker.closeEnd ≤ b.opening.openAt := (hfront m hm (.opening b) (by simp)).ordered
    omega
  · simp only [Mark.marker] at hle
    omega
  · simp only [Mark.marker] at hle'
    omega
  · have hle : b.ending.closeEnd ≤ m.marker.openAt :=
      ((List.pairwise_cons.1 (List.pairwise_cons.1 hbehind).2).1 m hm).ordered
    omega

namespace Document

variable {s : Settings} {t : Text} {d : Document}

/-- **A flat document**: no block encloses another, and no header of several lines stands behind
something on its line. -/
structure Flat (d : Document) : Prop where
  /-- No block encloses another. -/
  depth : ∀ b ∈ d.blocks, b.depth = 1
  /-- A header of several lines starts on a line that holds no part of a marker before it. -/
  headers : d.marks.Pairwise fun m m' =>
    newline ∈ m'.marker.written d.source → m.marker.closeEnd ≤ m'.marker.lineStart
  /-- Nor does it stand behind an inline body. -/
  endings : ∀ b ∈ d.blocks, newline ∈ b.ending.written d.source → b.isInline = false

namespace Flat

/-- The marks of a flat document are those of its blocks in turn. -/
theorem marks_eq (h : d.Flat) (hd : parse s t = .ok d) :
    d.marks = d.outermost.flatMap Block.marks ∧ ∀ b ∈ d.outermost, Encloses t 1 b [] := by
  have houter := outermost_of_parse hd
  exact houter.eq_flatMap h.depth

/-- No span holds a part of another marker. -/
theorem spansApart (h : d.Flat) (hd : parse s t = .ok d) : Mark.SpansApart d.marks := by
  obtain ⟨hbefore, hstands⟩ := pairwise_before hd
  have husable := usable_of_parse hd
  rw [(h.marks_eq hd).1] at hbefore hstands ⊢
  exact Mark.spansApart_flatMap husable hbefore hstands

/-- No header changes when other bodies are written. -/
theorem steady (h : d.Flat) (hd : parse s t = .ok d) : Mark.Steady d.source none d.outermost := by
  have hheaders := h.headers
  rw [(h.marks_eq hd).1, List.pairwise_flatMap] at hheaders
  refine ⟨(hheaders.2.imp fun hab => ?_).isChain, fun b hb => h.endings b (List.mem_of_mem_filter hb)⟩
  exact hab (.ending _) (by simp [Block.marks]) (.opening _) (by simp [Block.marks])

/-- The two markers of a block are of one family. -/
theorem family (h : d.Flat) (hd : parse s t = .ok d) :
    ∀ b ∈ d.outermost, b.opening.family = b.ending.family := by
  intro b hb
  have henclosed := (h.marks_eq hd).2 b hb
  obtain ⟨q, hinside, -, hclash⟩ := henclosed.layout
  obtain rfl : b.opening = q := by cases hinside; rfl
  simpa [Pairing.clashes, henclosed.opens, henclosed.ends] using hclash

/-- The edits are the blocks of that family. -/
theorem edits_map_name (h : d.Flat) (hd : parse s t = .ok d) :
    d.edits.map EditBlock.name = Marker.editNames (d.outermost.map Block.opening) := by
  obtain ⟨hmarks, hblocks⟩ := h.marks_eq hd
  rw [Document.edits_map_name hd, hmarks, Marker.editNames_flatMap hblocks]

end Flat

/-! ## Plain contents -/

/-- What a flat document resolves its blocks to is plain, and an edit is resolved to its body, which
loses a line feed at its end. -/
structure Settles (s : Settings) (b : Block) (content? : Option Text) : Prop where
  /-- Nothing that opens a marker is written. -/
  plain : ∀ x ∈ content?, x.Plain s
  /-- An edit is put back. -/
  edit : b.family = .edit → content? = b.content.map Run.dropFinalNewline

namespace Flat

/-- The bodies of a flat document are plain. -/
theorem plain_content (h : d.Flat) (hd : parse s t = .ok d)
    (hsolid : ∀ f, Text.Solid (s.tokens f).opener) :
    ∀ b ∈ d.outermost, ∀ x ∈ b.content, x.Plain s := by
  have husable := usable_of_parse hd
  obtain ⟨cells, tail, hcut⟩ := exists_isCut hd (fun f => (hsolid f).newline_notMem)
    (h.spansApart hd)
  have hlexed : Lexed s ([] ++ cells.flatMap Cell.lexemes ++ ofText tail) := hcut.lexed
  exact hcut.cut.plain_content husable hsolid h.depth hlexed.regions

/-- **A block of a flat document yields a plain text**, and an edit yields its body. -/
theorem yielded (h : d.Flat) (hd : parse s t = .ok d) (hsolid : ∀ f, Text.Solid (s.tokens f).opener)
    {run : Run} (hoverrides : run.overrides = [])
    (hrender : ∀ b ∈ d.blocks, b.family = .generation → ∀ r, run.render b.opening.header = .ok r →
      r.Plain s)
    {b : Block} (hb : b ∈ d.outermost) {c c' : List Text} {u? : Option Text}
    (hyield : (run.yielded t [d.edits] b.opening).run c = .ok (u?, c')) :
    (∀ u ∈ u?, u.Plain s) ∧ (b.family = .edit → u? = b.content) := by
  have hblock := List.mem_of_mem_filter hb
  cases hfamily : b.opening.family with
  | generation =>
    refine ⟨fun u hu => ?_, fun hedit => ?_⟩
    · obtain ⟨-, hu?⟩ := (Run.yielded_generation_eq_ok_iff hfamily).1 hyield
      split at hu?
      · simp [hu?] at hu
      · obtain ⟨r, hr, rfl⟩ := hu?
        obtain rfl := Option.some.inj hu
        exact hrender b hblock hfamily _ hr
    · rw [Block.family, hfamily] at hedit
      cases hedit
  | edit =>
    obtain ⟨-, -, hu?⟩ := (Run.yielded_edit_eq_ok_iff hfamily).1 hyield
    have hcontent := content_of_mem_blocks hd hblock hfamily
    rw [hoverrides, ← Block.name, hcontent] at hu?
    obtain rfl : u? = b.content := by simpa using hu?
    exact ⟨h.plain_content hd hsolid b hb, fun _ => rfl⟩

/-- **Every block of a flat document settles.** -/
theorem settles (h : d.Flat) (hd : parse s t = .ok d) (hsolid : ∀ f, Text.Solid (s.tokens f).opener)
    {run : Run} (hsettings : run.settings = s) (hoverrides : run.overrides = [])
    (hmarkers : run.removeMarkers = false)
    (hrender : ∀ b ∈ d.blocks, b.family = .generation → ∀ r, run.render b.opening.header = .ok r →
      r.Plain s)
    {b : Block} (hb : b ∈ d.outermost) {levels : Nat} {c c' : List Text} {x? : Option Text}
    (hresolve : (run.resolve (run.evaluate levels) t [d.edits] b.opening).run c = .ok (x?, c')) :
    Settles s b x? := by
  obtain ⟨u?, c₁, hyield, hsettle⟩ := Run.resolve_eq_ok_iff.1 hresolve
  obtain ⟨hplain, hedit⟩ := h.yielded hd hsolid hoverrides hrender hb hyield
  have husable := usable_of_parse hd
  subst hsettings
  obtain ⟨-, rfl, -⟩ := (Run.settle_of_plain husable hplain).1 hsettle
  rw [Run.plain_eq_map hmarkers]
  refine ⟨fun x hx => ?_, fun hfamily => by rw [hedit hfamily]⟩
  obtain ⟨u, hu, rfl⟩ := Option.map_eq_some_iff.1 hx
  exact (hplain u hu).dropFinalNewline

end Flat

/-- **A block recurs** in another text as a block of the same header, layout and, if it is an edit, body. -/
structure Recurs (b b' : Block) : Prop where
  /-- The open markers are alike. -/
  opening : b.opening.Alike b'.opening
  /-- The blocks are laid out alike. -/
  isInline : b'.isInline = b.isInline
  /-- The bodies of edits are the same. -/
  content : b.family = .edit → b'.content = b.content

/-- A block that settles recurs if its body ends in no line feed. -/
theorem Settles.recurs {b b' : Block} {content? : Option Text} (h : Settles s b content?)
    (hrenewed : b.Renewed content? b')
    (hline : b.family = .edit → ∀ x ∈ b.content, x.getLast? ≠ some newline) : Recurs b b' :=
  ⟨hrenewed.opening, hrenewed.isInline, fun hfamily =>
    (h.edit hfamily ▸ hrenewed).content_eq_iff.2 (hline hfamily)⟩

/-- Contents that fit on the lines of blocks fit where the blocks recur. -/
theorem lines_of_recurs {bs bs' : List Block} {cs : List (Option Text)}
    (h : List.Forall₂ Recurs bs bs')
    (hlines : ∀ p ∈ bs.zip cs, p.1.isInline → newline ∉ p.2.getD []) :
    ∀ p ∈ bs'.zip cs, p.1.isInline → newline ∉ p.2.getD [] := by
  induction h generalizing cs with
  | nil => simp
  | @cons b b' _ _ hb _ ih =>
    cases cs with
    | nil => simp
    | cons content? cs =>
      rw [List.zip_cons_cons, List.forall_mem_cons] at hlines ⊢
      refine ⟨?_, ih hlines.2⟩
      dsimp only
      rw [hb.isInline]
      exact hlines.1

/-- Edits that recur in another text are found there as they were. -/
theorem content_of_recurs {o : Text} {d' : Document} (hd' : parse s o = .ok d') {bs : List Block}
    (h : List.Forall₂ Recurs bs d'.outermost) {b : Block} (hb : b ∈ bs) (hfamily : b.family = .edit) :
    Pool.content [d'.edits] b.name = b.content := by
  obtain ⟨b', hb', hopening, -, hcontent⟩ := exists_rel_of_mem h hb
  rw [← hcontent hfamily, Block.name, ← hopening.name]
  exact content_of_mem_blocks hd' (List.mem_of_mem_filter hb') (hopening.family.trans hfamily)

/-- **What a flat document comes to is read again**: its blocks recur, and if they are written with the
same contents, the text stays. -/
theorem Flat.refill (h : d.Flat) (hd : parse s t = .ok d) (hsolid : ∀ f, Text.Solid (s.tokens f).opener)
    (hedits : ∀ b ∈ d.blocks, b.family = .edit → ∀ x ∈ b.content, x.getLast? ≠ some newline)
    {cs : List (Option Text)} (hlength : cs.length = d.outermost.length)
    (hsettles : ∀ p ∈ d.outermost.zip cs, Settles s p.1 p.2)
    (hlines : ∀ p ∈ d.outermost.zip cs, p.1.isInline → newline ∉ p.2.getD []) {o : Text}
    (ho : o = t.patch 0 (List.zipWith (Block.patched false) d.outermost cs)) :
    ∃ d', parse s o = .ok d' ∧ List.Forall₂ Recurs d.outermost d'.outermost ∧
      d'.edits.map EditBlock.name = d.edits.map EditBlock.name ∧
      o = o.patch 0 (List.zipWith (Block.patched false) d'.outermost cs) := by
  have husable := usable_of_parse hd
  obtain ⟨cells, tail, hcut⟩ := exists_isCut hd (fun f => (hsolid f).newline_notMem) (h.spansApart hd)
  have hcelled : Celled s [] cells d.outermost := hcut.cut.celled
  obtain ⟨cells', hrefilled, hregions, hfitted⟩ := hcelled.exists_refilled husable hsolid
    (h.family hd) hlength
    (fun p hp => (hsettles p hp).plain) hlines
  rw [← h.edits_map_name hd] at hfitted
  obtain ⟨d', hd', hcut', hrenewed, hnames, -⟩ := hcut.refill hd hsolid (h.steady hd)
    hrefilled hregions hfitted (nodup_edits hd)
  rw [source_of_parse hd, ← ho] at hd'
  refine ⟨d', hd', ?_, hnames, ?_⟩
  · refine Block.Renewed.forall₂ hrenewed hlength fun p hp b' hb' => ?_
    exact (hsettles p hp).recurs hb' (hedits _ (List.mem_of_mem_filter (List.of_mem_zip hp).1))
  · have hsource := hcut.patch_eq hrefilled
    rw [source_of_parse hd, ← ho] at hsource
    have hagain := hcut'.patch_eq (hrefilled.again hrenewed)
    rw [source_of_parse hd', ← hsource] at hagain
    exact hagain.symm

/-- **Regenerating a flat document is a fixed point.** Openers are solid, the renderer never writes one,
and no body of an edit ends in a line feed. Then what comes of the document is a document again, which
is regenerated to itself, and the document is regenerated to it also if the edits come from there. -/
theorem generate_again {renderer : Renderer} {context : Context} {o : Text}
    (hsolid : ∀ f, Text.Solid (s.tokens f).opener) (hd : parse s t = .ok d) (hflat : d.Flat)
    (hrender : ∀ b ∈ d.blocks, b.family = .generation → ∀ r, renderer b.opening.header context = .ok r →
      ∀ f, ¬ (s.tokens f).opener <:+: r)
    (hedits : ∀ b ∈ d.blocks, b.family = .edit → ∀ x ∈ b.content, x.getLast? ≠ some newline)
    (h : generate renderer context s .directive false d {} = .ok o) :
    ∃ d', parse s o = .ok d' ∧ generate renderer context s .directive false d' {} = .ok o ∧
      generate renderer context s .directive false d { recovered := d'.edits } = .ok o := by
  obtain ⟨husable, -⟩ := parse_eq_ok_iff.1 hd
  obtain ⟨cs, claimed, hcs, hlines, ho, hclaimed⟩ := (generate_eq_ok_iff hd).1 h
  set run := Run.ofRenderer renderer context s false [] with hrun
  rw [Edits.union_nil] at hcs hclaimed
  have hrender' : ∀ b ∈ d.blocks, b.family = .generation → ∀ r,
      renderer b.opening.header context = .ok r → r.Plain s := fun b hb hfamily r hr f =>
    (Text.clear_iff_not_infix (husable.opener f) r).2 (hrender b hb hfamily r hr f)
  have hsettles : ∀ p ∈ d.outermost.zip cs, Settles s p.1 p.2 :=
    Run.forall_mem_zip_contents (fun b hb c x? c' hresolve =>
      hflat.settles hd hsolid rfl rfl rfl hrender' hb hresolve) hcs
  obtain ⟨d', hd', hrecurs, hnames, hagain⟩ := hflat.refill hd hsolid hedits
    (Run.length_contents hcs) hsettles hlines ho
  -- with the edits of the output, everything is resolved as it was before
  have hresolve : ∀ b ∈ d.outermost, ∀ (source : Text) (m : Marker), b.opening.Alike m →
      ∀ c r, (run.resolve (run.evaluate s.maxDepth) t [d.edits] b.opening).run c = .ok r →
        (run.resolve (run.evaluate s.maxDepth) source [d'.edits] m).run c = .ok r := by
    rintro b hb source m halike c ⟨x?, c'⟩
    refine Run.resolve_of_alike husable halike (fun hfamily => ?_) ?_
    · exact (content_of_recurs hd' hrecurs hb hfamily).trans
        (content_of_mem_blocks hd (List.mem_of_mem_filter hb) hfamily).symm
    · rintro u? ⟨c₁, hyield⟩
      exact (hflat.yielded hd hsolid rfl hrender' hb hyield).1
  have hcs' : ∀ (source : Text) (bs : List Block),
      List.Forall₂ (fun b b' => b ∈ d.outermost ∧ b.opening.Alike b'.opening) d.outermost bs →
      (Run.contents (run.resolve (run.evaluate s.maxDepth) source [d'.edits]) bs).run []
        = .ok (cs, claimed) := fun source bs hbs =>
    Run.contents_of_forall₂ (hbs.imp fun b b' hb => hresolve b hb.1 source _ hb.2) hcs
  have hclaimed' : d'.edits.checkClaimed claimed = .ok () := by
    rw [Edits.checkClaimed_eq_ok_iff] at hclaimed ⊢
    intro e he _
    obtain ⟨e₀, he₀, hname⟩ := List.mem_map.1 (hnames ▸ List.mem_map_of_mem he)
    obtain ⟨b, -, -, rfl⟩ := (mem_edits_iff hd).1 he₀
    exact hname ▸ hclaimed _ he₀ rfl
  have hunion : d.edits.union d'.edits = d'.edits :=
    Edits.union_eq_right fun e he => hnames ▸ List.mem_map_of_mem he
  refine ⟨d', hd', (generate_eq_ok_iff hd').2 ⟨cs, claimed, ?_, lines_of_recurs hrecurs hlines,
    hagain, ?_⟩, (generate_eq_ok_iff hd).2 ⟨cs, claimed, ?_, hlines, ho, ?_⟩⟩
  · rw [Edits.union_nil]
    exact hcs' o _ ((List.forall₂_and_left _ _).2 ⟨fun _ hb => hb, hrecurs.imp fun _ _ hb => hb.opening⟩)
  · rwa [Edits.union_nil]
  · rw [hunion]
    exact hcs' t _ (List.forall₂_same.2 fun b hb => ⟨hb, .refl _⟩)
  · rwa [hunion]

/-- A flat document of a generation block and an edit of two lines. -/
def flat : Document :=
  ((parse .standard "[[[ a ]]] b [[[ end ]]]\n<<[ c ]>>\n d\n\n e\n<<[ end ]>>\n").toOption).getD
    { source := [], marks := [], edits := [] }

theorem generate_again_flat :
    ∃ d', parse .standard "[[[ a ]]] x [[[ end ]]]\n<<[ c ]>>\n d\n\n e\n<<[ end ]>>\n" = .ok d' ∧
      generate (fun _ _ => .ok "x") [] .standard .directive false d' {}
        = .ok "[[[ a ]]] x [[[ end ]]]\n<<[ c ]>>\n d\n\n e\n<<[ end ]>>\n" ∧
      generate (fun _ _ => .ok "x") [] .standard .directive false flat { recovered := d'.edits }
        = .ok "[[[ a ]]] x [[[ end ]]]\n<<[ c ]>>\n d\n\n e\n<<[ end ]>>\n" := by
  have hd : parse .standard "[[[ a ]]] b [[[ end ]]]\n<<[ c ]>>\n d\n\n e\n<<[ end ]>>\n" = .ok flat := by
    rfl
  refine generate_again (fun f => by cases f <;> decide +kernel) hd
    ⟨by decide +kernel, by decide +kernel, by decide +kernel⟩ ?_ (by decide +kernel)
    (by decide +kernel)
  rintro b - - r ⟨⟩ f
  cases f <;> decide

end Document

/-- Settings by which a generation marker ends its line. -/
def Settings.endingLines : Settings :=
  { Settings.standard with
    generation := { Tokens.generation with opener := "(", closer := ")\n", endWord := "E" } }

namespace Document

/-- A flat document whose end marker has a header of two lines. -/
def endingLines : Document :=
  ((parse .endingLines "(a)\nxy(E\n  )\n").toOption).getD { source := [], marks := [], edits := [] }

/-- A longer body moves the header of an end marker behind it, and then the second line of this header
is indented too little. Nothing else is in front of the marker on its line. -/
theorem not_generate_again_of_closer :
    ¬ ∀ (s : Settings) (t : Text) (d : Document) (renderer : Renderer) (context : Context) (o : Text),
      (∀ f, Text.Solid (s.tokens f).opener) → parse s t = .ok d → (∀ b ∈ d.blocks, b.depth = 1) →
      (d.marks.Pairwise fun m m' =>
        newline ∈ m'.marker.written d.source → m.marker.closeEnd ≤ m'.marker.lineStart) →
      (∀ b ∈ d.blocks, ∀ r, renderer b.opening.header context = .ok r →
        ∀ f, ¬ (s.tokens f).opener <:+: r) →
      (∀ b ∈ d.blocks, b.family = .edit → ∀ x ∈ b.content, x.getLast? ≠ some newline) →
      generate renderer context s .directive false d {} = .ok o →
      ∃ d', parse s o = .ok d' ∧ generate renderer context s .directive false d' {} = .ok o ∧
        generate renderer context s .directive false d { recovered := d'.edits } = .ok o := by
  intro h
  have hd : parse .endingLines "(a)\nxy(E\n  )\n" = .ok endingLines := by rfl
  have hrender : ∀ b ∈ endingLines.blocks, ∀ r, (fun _ _ => .ok "longer" : Renderer) b.opening.header []
      = .ok r → ∀ f, ¬ (Settings.endingLines.tokens f).opener <:+: r := by
    rintro b - r ⟨⟩ f
    cases f <;> decide
  obtain ⟨d', hd', -⟩ := h .endingLines "(a)\nxy(E\n  )\n" endingLines (fun _ _ => .ok "longer") []
    "(a)\n longer (E\n  )\n" (fun f => by cases f <;> decide +kernel) hd (by decide +kernel)
    (by decide +kernel) hrender (by decide +kernel) (by decide +kernel)
  have hfails : (parse .endingLines "(a)\n longer (E\n  )\n").toOption.isNone = true := by
    decide +kernel
  rw [hd'] at hfails
  cases hfails

end Document

end Regen
