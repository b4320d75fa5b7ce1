import Regen.Proofs.Recovery
import Regen.Proofs.Resolution

/-!
# A generation as a tree

A generation asks what a marker yields, reads that as a text, and regenerates its blocks in turn. How
deeply texts may be nested in one another and which edits have been asked for before decides whether it
succeeds, but not what comes out of it. So a generation that succeeds is described by a tree without
either (`Run.Regenerated`): each block has the content that its yield is regenerated to. The
edits that are asked for are collected on the way, each with what it is put back with, and no edit is
asked for twice (`Run.regenerated_of_outermost`).

The texts that are read for the blocks of a text are those of the tree (`Run.Reads`). What holds of all of
them holds of the yields of the blocks, and of all that is read for the blocks of these
(`Run.Throughout.iff_forall`).
-/

namespace Regen

namespace Run

variable {run : Run} {source : Text} {pool : Pool} {m : Marker} {u? u?' : Option Text}

/-- **What a marker yields**, whichever edits have been asked for before. -/
def Yields (run : Run) (source : Text) (pool : Pool) (m : Marker) (u? : Option Text) : Prop :=
  ∃ c c', (run.yielded source pool m).run c = .ok (u?, c')

/-- A marker yields one thing only. -/
theorem Yields.unique (h : run.Yields source pool m u?) (h' : run.Yields source pool m u?') :
    u? = u?' := by
  obtain ⟨c, c₁, h⟩ := h
  obtain ⟨c', c₁', h'⟩ := h'
  cases hm : m.family with
  | edit => rw [((yielded_edit_eq_ok_iff hm).1 h).2.2, ((yielded_edit_eq_ok_iff hm).1 h').2.2]
  | generation =>
    have hu := ((yielded_generation_eq_ok_iff hm).1 h).2
    have hu' := ((yielded_generation_eq_ok_iff hm).1 h').2
    cases hempty : m.headerEmpty with
    | true =>
      rw [if_pos hempty] at hu hu'
      rw [hu, hu']
    | false =>
      rw [if_neg (by simp [hempty])] at hu hu'
      obtain ⟨r, hr, rfl⟩ := hu
      obtain ⟨r', hr', rfl⟩ := hu'
      rw [Except.ok.inj (hr.symm.trans hr')]

/-- **What an edit is put back with**: the override of its name, or else the body at hand. -/
def chosen (run : Run) (pool : Pool) (name : Text) : Option Text :=
  run.overrides.lookup name <|> pool.content name

/-- An edit marker yields what its edit is put back with. -/
theorem Yields.eq_chosen (h : run.Yields source pool m u?) (hm : m.family = .edit) :
    u? = run.chosen pool m.name := by
  obtain ⟨c, c', h⟩ := h
  exact ((yielded_edit_eq_ok_iff hm).1 h).2.2

/-- A generation marker yields its header rendered. -/
theorem Yields.render_eq {u : Text} (h : run.Yields source pool m (some u))
    (hm : m.family = .generation) : run.render m.header = .ok u := by
  obtain ⟨c, c', h⟩ := h
  have hu := ((yielded_generation_eq_ok_iff hm).1 h).2
  split at hu
  · cases hu
  · obtain ⟨r, hr, hru⟩ := hu
    rw [hr, ← Option.some.inj hru]

/-- The name of an edit that was asked for, and what it was put back with. -/
abbrev Claim := Text × Option Text

/-- What a marker asks for. -/
def asked (run : Run) (pool : Pool) (m : Marker) : List Claim :=
  if m.family = .edit then [(m.name, run.chosen pool m.name)] else []

/-- An edit marker asks for its edit. -/
theorem mem_asked_iff {claim : Claim} :
    claim ∈ run.asked pool m ↔ m.family = .edit ∧ claim = (m.name, run.chosen pool m.name) := by
  by_cases hfamily : m.family = .edit <;> simp [asked, hfamily]

/-- An open marker asks for the edit that it opens, if it opens one, and for no other. -/
theorem map_fst_asked (pool : Pool) (hm : m.isEnd = false) :
    (run.asked pool m).map Prod.fst = Marker.editNames [m] := by
  by_cases hfamily : m.family = .edit <;> simp [asked, Marker.editNames, hfamily, hm]

/-- A marker that yields something has asked for an edit that is new, or for none. -/
theorem claimed_of_yielded {c c' : List Text} (h : (run.yielded source pool m).run c = .ok (u?, c')) :
    c' = ((run.asked pool m).map Prod.fst).reverse ++ c ∧ (c.Nodup → c'.Nodup) := by
  cases hfamily : m.family with
  | edit =>
    obtain ⟨hnew, rfl, -⟩ := (yielded_edit_eq_ok_iff hfamily).1 h
    exact ⟨by simp [asked, hfamily], fun hc => List.nodup_cons.2 ⟨hnew, hc⟩⟩
  | generation =>
    obtain ⟨rfl, -⟩ := (yielded_generation_eq_ok_iff hfamily).1 h
    exact ⟨by simp [asked, hfamily], id⟩

/-- What becomes of a text when its outermost blocks get these contents. -/
def result (run : Run) (d : Document) (cs : List (Option Text)) : Text :=
  d.source.patch 0 (List.zipWith (Block.patched run.removeMarkers) d.outermost cs)

/-- The content of a block whose marker yields `u`, where `u` is regenerated to `r`. The empty text is
taken as it is. -/
def settled (run : Run) (u r : Text) : Option Text := if u.isEmpty then some [] else run.finish r

/-- Where markers are kept, a yield only loses a line feed at its end, besides being regenerated. -/
theorem settled_eq (hmarkers : run.removeMarkers = false) {u r : Text} (h : u = [] → r = []) :
    run.settled u r = some (dropFinalNewline r) := by
  unfold settled
  split
  · rename_i hu
    rw [h (List.isEmpty_iff.1 hu)]
    rfl
  · simp [finish, hmarkers]

/-- A text without markers is regenerated to itself. -/
theorem result_of_plain {u : Text} {d : Document} (hd : Document.parse run.settings u = .ok d)
    (hu : u.Plain run.settings) (cs : List (Option Text)) : run.result d cs = u := by
  have husable := Document.usable_of_parse hd
  rw [parse_of_plain husable hu] at hd
  obtain rfl := Except.ok.inj hd
  rfl

/-- What is read of the empty text, nothing is written for. -/
theorem result_of_parse_nil {d : Document} (hd : Document.parse run.settings [] = .ok d)
    (cs : List (Option Text)) : run.result d cs = [] :=
  result_of_plain hd (fun _ => trivial) cs

/-- **The contents of blocks** in the tree of a generation: a block has none if its marker yields nothing,
and otherwise what the blocks of the yield are regenerated to. `claims` are the edits that are asked
for, in order. -/
inductive Regenerated (run : Run) :
    Pool → (source : Text) → List Block → List (Option Text) → (claims : List Claim) → Prop
  /-- No blocks. -/
  | nil {pool : Pool} {source : Text} : Regenerated run pool source [] [] []
  /-- A block without content, and those behind it. -/
  | bare {pool : Pool} {source : Text} {b : Block} {bs : List Block} {cs : List (Option Text)}
      {claims : List Claim} (hyield : run.Yields source pool b.opening none)
      (hrest : Regenerated run pool source bs cs claims) :
      Regenerated run pool source (b :: bs) (none :: cs) (run.asked pool b.opening ++ claims)
  /-- A block with a content, and those behind it. -/
  | filled {pool : Pool} {source u : Text} {b : Block} {bs : List Block} {d : Document}
      {cs cs' : List (Option Text)} {inner claims : List Claim}
      (hyield : run.Yields source pool b.opening (some u)) (hd : Document.parse run.settings u = .ok d)
      (hinner : Regenerated run (pool.beneath d.edits) u d.outermost cs' inner)
      (hlines : ∀ p ∈ d.outermost.zip cs', p.1.isInline → Text.newline ∉ p.2.getD [])
      (hrest : Regenerated run pool source bs cs claims) :
      Regenerated run pool source (b :: bs) (run.settled u (run.result d cs') :: cs)
        (run.asked pool b.opening ++ inner ++ claims)

/-- There are as many contents as blocks. -/
theorem Regenerated.length_eq {bs : List Block} {cs : List (Option Text)} {claims : List Claim}
    (h : run.Regenerated pool source bs cs claims) : cs.length = bs.length := by
  induction h with
  | nil => rfl
  | bare _ _ ih => rw [List.length_cons, List.length_cons, ih]
  | filled _ _ _ _ _ _ ih => rw [List.length_cons, List.length_cons, ih]

/-- What the marker of a block asks for is asked for in the tree. -/
theorem Regenerated.asked_subset {bs : List Block} {cs : List (Option Text)} {claims : List Claim}
    (h : run.Regenerated pool source bs cs claims) {b : Block} (hb : b ∈ bs) :
    run.asked pool b.opening ⊆ claims := by
  induction h with
  | nil => cases hb
  | bare _ _ ih =>
    obtain rfl | hb := List.mem_cons.1 hb
    · exact List.subset_append_left _ _
    · exact List.subset_append_of_subset_right _ (ih hb)
  | filled _ _ _ _ _ _ ih =>
    obtain rfl | hb := List.mem_cons.1 hb
    · exact List.subset_append_of_subset_left _ (List.subset_append_left _ _)
    · exact List.subset_append_of_subset_right _ (ih hb)

/-- **The tree of what a block yields** is a part of the tree. -/
theorem Regenerated.exists_inner {bs : List Block} {cs : List (Option Text)} {claims : List Claim}
    (h : run.Regenerated pool source bs cs claims) {b : Block} (hb : b ∈ bs) {u : Text} {d : Document}
    (hyield : run.Yields source pool b.opening (some u)) (hd : Document.parse run.settings u = .ok d) :
    ∃ cs' inner, run.Regenerated (pool.beneath d.edits) u d.outermost cs' inner ∧ inner ⊆ claims := by
  induction h with
  | nil => cases hb
  | bare hyield' _ ih =>
    obtain rfl | hb := List.mem_cons.1 hb
    · cases hyield.unique hyield'
    · obtain ⟨cs', inner, hinner, hsubset⟩ := ih hb hyield
      exact ⟨cs', inner, hinner, List.subset_append_of_subset_right _ hsubset⟩
  | filled hyield' hd' hinner' _ _ _ ih =>
    obtain rfl | hb := List.mem_cons.1 hb
    · cases hyield.unique hyield'
      cases hd.symm.trans hd'
      exact ⟨_, _, hinner', List.subset_append_of_subset_left _ (List.subset_append_right _ _)⟩
    · obtain ⟨cs', inner, hinner, hsubset⟩ := ih hb hyield
      exact ⟨cs', inner, hinner, List.subset_append_of_subset_right _ hsubset⟩

/-- **What is asked for in a tree** is asked for by the marker of a block, or in the tree of what the block
yields. -/
theorem Regenerated.exists_of_mem {bs : List Block} {cs : List (Option Text)} {claims : List Claim}
    {claim : Claim} (h : run.Regenerated pool source bs cs claims) (hclaim : claim ∈ claims) :
    ∃ b ∈ bs, claim ∈ run.asked pool b.opening ∨
      ∃ u d cs' inner, run.Yields source pool b.opening (some u) ∧
        Document.parse run.settings u = .ok d ∧
        run.Regenerated (pool.beneath d.edits) u d.outermost cs' inner ∧ claim ∈ inner := by
  induction h with
  | nil => cases hclaim
  | @bare pool source b bs cs claims _ _ ih =>
    obtain hasked | hrest := List.mem_append.1 hclaim
    · exact ⟨b, List.mem_cons_self, .inl hasked⟩
    · obtain ⟨b', hb', h'⟩ := ih hrest
      exact ⟨b', List.mem_cons_of_mem b hb', h'⟩
  | @filled pool source u b bs d cs cs' inner claims hyield hd hinner _ _ _ ih =>
    obtain hfirst | hrest := List.mem_append.1 hclaim
    · refine ⟨b, List.mem_cons_self, (List.mem_append.1 hfirst).imp_right fun hmem => ?_⟩
      exact ⟨u, d, cs', inner, hyield, hd, hinner, hmem⟩
    · obtain ⟨b', hb', h'⟩ := ih hrest
      exact ⟨b', List.mem_cons_of_mem b hb', h'⟩

/-- Nothing is asked for in the tree of the empty text. -/
theorem Regenerated.ne_nil_of_mem {u : Text} {d : Document} {cs : List (Option Text)}
    {claims : List Claim} {claim : Claim} (hd : Document.parse run.settings u = .ok d)
    (h : run.Regenerated pool u d.outermost cs claims) (hclaim : claim ∈ claims) : u ≠ [] := by
  rintro rfl
  have hplain : Text.Plain run.settings [] := fun _ => trivial
  rw [parse_of_plain (Document.usable_of_parse hd) hplain] at hd
  obtain rfl := Except.ok.inj hd
  have hnone : run.Regenerated pool [] [] cs claims := h
  cases hnone
  cases hclaim

/-- **A text is regenerated as a tree says**, and the edits that were asked for are new. -/
structure Grown (run : Run) (pool : Pool) (u r : Text) (c c' : List Text) (d : Document)
    (cs : List (Option Text)) (claims : List Claim) : Prop where
  /-- The text is read. -/
  parse : Document.parse run.settings u = .ok d
  /-- Its blocks have their contents. -/
  contents : run.Regenerated (pool.beneath d.edits) u d.outermost cs claims
  /-- Contents of inline blocks take one line. -/
  lines : ∀ p ∈ d.outermost.zip cs, p.1.isInline → Text.newline ∉ p.2.getD []
  /-- The contents are written. -/
  result : r = run.result d cs
  /-- The names are put in front of those that were asked for before. -/
  claimed : c' = (claims.map Prod.fst).reverse ++ c
  /-- They are distinct. -/
  nodup : c.Nodup → c'.Nodup

variable {bs : List Block} {cs : List (Option Text)} {c c' : List Text}

/-- The contents of blocks grow if the texts that are evaluated for them do. -/
theorem regenerated_of_grown {evaluate : Evaluator} (hs : Document.Usable run.settings)
    (hevaluate : ∀ {m : Marker} {u r : Text} {c c' : List Text},
      (evaluate source m pool u).run c = .ok (r, c') →
        ∃ d cs claims, run.Grown pool u r c c' d cs claims)
    (h : (Run.contents (run.resolve evaluate source pool) bs).run c = .ok (cs, c')) :
    ∃ claims, run.Regenerated pool source bs cs claims ∧
      c' = (claims.map Prod.fst).reverse ++ c ∧ (c.Nodup → c'.Nodup) := by
  induction bs generalizing cs c with
  | nil =>
    obtain ⟨rfl, rfl⟩ := Claiming.run_pure_eq_ok_iff.1 h
    exact ⟨[], .nil, rfl, id⟩
  | cons b bs ih =>
    obtain ⟨content?, c₂, cs, hcontent, hcs, rfl⟩ := contents_cons_eq_ok_iff.1 h
    obtain ⟨claims, hrest, rfl, hnodup⟩ := ih hcs
    obtain ⟨u?, c₁, hyield, hsettle⟩ := resolve_eq_ok_iff.1 hcontent
    obtain ⟨hc₁, hnodup₁⟩ := claimed_of_yielded hyield
    cases u? with
    | none =>
      obtain ⟨rfl, rfl⟩ := Claiming.run_pure_eq_ok_iff.1 hsettle
      exact ⟨_, .bare ⟨_, _, hyield⟩ hrest, by simp [hc₁], fun hc => hnodup (hnodup₁ hc)⟩
    | some u =>
      have hgrown : ∃ d cs' inner, ∃ r, run.Grown pool u r c₁ c₂ d cs' inner ∧
          content? = run.settled u r := by
        by_cases hu : u = []
        · subst hu
          obtain ⟨rfl, rfl⟩ := Claiming.run_pure_eq_ok_iff.1 hsettle
          exact ⟨_, [], [], [], ⟨parse_of_plain hs fun _ => trivial, .nil, by simp, rfl, rfl, id⟩, rfl⟩
        · have hempty : u.isEmpty = false := by simpa using hu
          rw [settle, hempty, if_neg Bool.false_ne_true, map_eq_pure_bind,
            Claiming.run_bind_eq_ok_iff] at hsettle
          obtain ⟨r, c₃, hr, hfinish⟩ := hsettle
          obtain ⟨rfl, rfl⟩ := Claiming.run_pure_eq_ok_iff.1 hfinish
          obtain ⟨d, cs', inner, hgrown⟩ := hevaluate hr
          exact ⟨d, cs', inner, r, hgrown, by simp [settled, hempty]⟩
      obtain ⟨d, cs', inner, r, hgrown, rfl⟩ := hgrown
      obtain ⟨hd, hinner, hlines, rfl, rfl, hnodup₂⟩ := hgrown
      exact ⟨_, .filled ⟨_, _, hyield⟩ hd hinner hlines hrest, by simp [hc₁],
        fun hc => hnodup (hnodup₂ (hnodup₁ hc))⟩

/-- **A generation that succeeds is a tree**, in which no edit is asked for twice. -/
theorem grown_of_evaluate (hs : Document.Usable run.settings) {levels : Nat} {u r : Text}
    (h : (run.evaluate levels source m pool u).run c = .ok (r, c')) :
    ∃ d cs claims, run.Grown pool u r c c' d cs claims := by
  induction levels generalizing source m pool u r c c' with
  | zero => cases h
  | succ levels ih =>
    obtain ⟨d, hd, hdirective⟩ := evaluate_succ_eq_ok_iff.1 h
    obtain ⟨cs, hcs, hlines, hr⟩ := (Document.directive_eq_ok_iff hd).1 hdirective
    obtain ⟨claims, hcontents, hclaimed, hnodup⟩ := regenerated_of_grown hs (fun h => ih h) hcs
    refine ⟨d, cs, claims, hd, hcontents, hlines, ?_, hclaimed, hnodup⟩
    rw [hr, result, Document.source_of_parse hd]

/-- **The blocks of a document that is regenerated** get the contents of a tree, and the names of the edits
that are asked for are collected on the way. -/
theorem regenerated_of_outermost {t o : Text} {d : Document} {claimed : List Text}
    (hd : Document.parse run.settings t = .ok d)
    (h : (run.outermost pool d).run [] = .ok (o, claimed)) :
    ∃ cs claims, run.Regenerated pool t d.outermost cs claims ∧
      (∀ p ∈ d.outermost.zip cs, p.1.isInline → Text.newline ∉ p.2.getD []) ∧
      o = run.result d cs ∧ claimed = (claims.map Prod.fst).reverse ∧
      (claims.map Prod.fst).Nodup := by
  have husable := Document.usable_of_parse hd
  obtain ⟨cs, hcs, hlines, ho⟩ := (Document.directive_eq_ok_iff hd).1 h
  obtain ⟨claims, htree, rfl, hnodup⟩ :=
    regenerated_of_grown husable (fun h => grown_of_evaluate husable h) hcs
  refine ⟨cs, claims, htree, hlines, ?_, by rw [List.append_nil], ?_⟩
  · rw [ho, result, Document.source_of_parse hd]
  · have hreverse := hnodup List.nodup_nil
    rwa [List.append_nil, (List.reverse_perm _).nodup_iff] at hreverse

/-! ## All texts that are read -/

/-- **The texts that are read** for the blocks of a text: what their markers yield, and what is read for the
blocks of that. -/
inductive Reads (run : Run) : Pool → (source : Text) → List Block → Block → Text → Prop
  /-- What the marker of a block yields. -/
  | here {pool : Pool} {source u : Text} {bs : List Block} {b : Block} (hb : b ∈ bs)
      (hyield : run.Yields source pool b.opening (some u)) : Reads run pool source bs b u
  /-- What is read for the blocks of a yield. -/
  | inside {pool : Pool} {source u v : Text} {bs : List Block} {a b : Block} {d : Document}
      (ha : a ∈ bs) (hyield : run.Yields source pool a.opening (some u))
      (hd : Document.parse run.settings u = .ok d)
      (hreads : Reads run (pool.beneath d.edits) u d.outermost b v) : Reads run pool source bs b v

/-- **A property of all documents that are read** for blocks. -/
def Throughout (run : Run) (P : Block → Document → Prop) (pool : Pool) (source : Text)
    (bs : List Block) : Prop :=
  ∀ b u d, run.Reads pool source bs b u → Document.parse run.settings u = .ok d → P b d

namespace Throughout

variable {P : Block → Document → Prop} {b : Block}

/-- **What holds throughout** holds of every yield, and of what is read for its blocks. -/
theorem iff_forall : run.Throughout P pool source bs ↔
    ∀ b ∈ bs, ∀ u d, run.Yields source pool b.opening (some u) →
      Document.parse run.settings u = .ok d →
        P b d ∧ run.Throughout P (pool.beneath d.edits) u d.outermost := by
  constructor
  · exact fun h b hb u d hyield hd => ⟨h b u d (.here hb hyield) hd,
      fun c v e hreads => h c v e (.inside hb hyield hd hreads)⟩
  · rintro h b u d (⟨hb, hyield⟩ | ⟨ha, hyield, hd', hreads⟩) hd
    · exact (h b hb u d hyield hd).1
    · exact (h _ ha _ _ hyield hd').2 b u d hreads hd

/-- What holds throughout holds for the first block and for those behind it. -/
theorem cons_iff : run.Throughout P pool source (b :: bs) ↔
    run.Throughout P pool source [b] ∧ run.Throughout P pool source bs := by
  rw [iff_forall, iff_forall, iff_forall, List.forall_mem_cons, List.forall_mem_singleton]

/-- What a block yields is one text only. -/
theorem singleton_iff {u : Text} {d : Document} (hyield : run.Yields source pool b.opening (some u))
    (hd : Document.parse run.settings u = .ok d) : run.Throughout P pool source [b] ↔
      P b d ∧ run.Throughout P (pool.beneath d.edits) u d.outermost := by
  rw [iff_forall, List.forall_mem_singleton]
  constructor
  · exact fun h => h u d hyield hd
  · intro h v e hyield' he
    obtain rfl := Option.some.inj (hyield.unique hyield')
    obtain rfl := Except.ok.inj (hd.symm.trans he)
    exact h

/-- No further text is read for yields without markers. -/
theorem of_plain (h : ∀ b ∈ bs, ∀ u d, run.Yields source pool b.opening (some u) →
    Document.parse run.settings u = .ok d → u.Plain run.settings ∧ P b d) :
    run.Throughout P pool source bs := by
  refine iff_forall.2 fun b hb u d hyield hd => ?_
  have husable := Document.usable_of_parse hd
  obtain ⟨hu, hP⟩ := h b hb u d hyield hd
  refine ⟨hP, ?_⟩
  rw [parse_of_plain husable hu] at hd
  obtain rfl := Except.ok.inj hd
  exact iff_forall.2 fun c hc => absurd hc List.not_mem_nil

end Throughout

end Run

end Regen
