import Regen.Proofs.Agreement
import Regen.Proofs.Progress

/-!
# Which body an edit is put back with

The edits at hand come in layers, one for each text that is being evaluated. The first layer holds what must
not be lost: the edits of the document, with those of an earlier output in their place where they have the
same name. Beneath it come the texts along the path to the edit marker, outermost first, and in document
mode the rendered document is the first of them (`Run.layers`). So what a layer is made of can be told from
the path, and not only from the pool that the program hands down (`Run.Starts.pool_eq`).

An edit is put back with its override, or else with what the outermost layer says that has its name at all
(`Document.body_of_claim`). A layer that has the name without a body says that there is none: no body is
taken from further inside then, although this is where a default would come from. If a generation succeeds,
it is described by a tree, and what is asked for in the tree is what is claimed at the ends of the paths
(`Run.Regenerated.mem_claims_iff`), so the layers decide about every body that is put back.
-/

namespace Regen

/-- **A layer decides about a name** if it is the outermost one that has an edit of the name. -/
def Pool.Decides (layers : Pool) (name : Text) (edit : EditBlock) : Prop :=
  ∃ outer layer inner, layers = outer ++ layer :: inner ∧ layer.get? name = some edit ∧
    ∀ l ∈ outer, l.get? name = none

/-- What is found in a pool is what its layers decide. -/
theorem Pool.find?_eq_some_iff {pool : Pool} {name : Text} {edit : EditBlock} :
    pool.find? name = some edit ↔ pool.Decides name edit := List.findSome?_eq_some_iff

/-- Nothing is found in a pool if no layer has the name. -/
theorem Pool.find?_eq_none_iff {pool : Pool} {name : Text} :
    pool.find? name = none ↔ ∀ layer ∈ pool, layer.get? name = none := List.findSome?_eq_none_iff

namespace Run

variable {run : Run} {d top : Document} {recovered : Edits} {mode : Mode} {pool : Pool}

/-- The edits that a document brings along: all of them, or in document mode those inside of generation
blocks. -/
def own (d : Document) : Mode → Edits
  | .directive => d.edits
  | .document => d.edits.filter (·.name ∉ (Holding.ofDocument d).freed)

/-- **At the top an edit of an earlier output goes before one of the document.** -/
theorem get?_atHand (mode : Mode) (d : Document) (recovered : Edits) (name : Text) :
    (atHand mode d recovered).get? name = (recovered.get? name).or ((own d mode).get? name) := by
  cases mode <;> exact Edits.get?_union _ _ name

/-- The texts that are evaluated on the way along a path. In document mode the one at the top is. -/
def evaluated : Mode → List Point → List Document
  | .directive, path => (path.map Point.document).tail
  | .document, path => path.map Point.document

/-- **The layers of edits at the end of a path**, outermost first. -/
def layers (mode : Mode) (d : Document) (recovered : Edits) (path : List Point) : Pool :=
  atHand mode d recovered :: (evaluated mode path).map Document.edits

/-- **What is at hand at the end of a path** are the layers of the texts along it. -/
theorem Starts.pool_eq (hstarts : run.Starts d recovered mode top pool) {levels : Nat} {c : List Text}
    {path : List Point} {p : Point} (hpath : run.Descends levels pool top c path)
    (hlast : path.getLast? = some p) : p.pool = layers mode d recovered path := by
  rw [hpath.pool_eq hlast]
  obtain ⟨q, rest, rfl, hq⟩ := hpath.exists_cons
  cases hstarts with
  | directive => rfl
  | document =>
    obtain rfl := hq
    rfl

/-- **The body that an edit is claimed with** is the override of its name, or else what the layers decide. -/
theorem body_eq_of_claim {source : Text} {m : Marker} {body? : Option Text} {c c' : List Text}
    (h : (run.claim source pool m).run c = .ok (body?, c')) :
    (∀ body, run.overrides.lookup m.name = some body → body? = some body) ∧
      (run.overrides.lookup m.name = none →
        (∀ edit, pool.Decides m.name edit → body? = edit.content) ∧
        ((∀ layer ∈ pool, layer.get? m.name = none) → body? = none)) := by
  obtain ⟨-, -, hbody⟩ := claim_eq_ok_iff.1 h
  refine ⟨fun body hoverride => ?_, fun hoverride => ⟨fun edit hdecides => ?_, fun hnone => ?_⟩⟩
  · rw [hbody, hoverride]
    rfl
  · rw [hbody, hoverride, Pool.content, Pool.find?_eq_some_iff.2 hdecides]
    rfl
  · rw [hbody, hoverride, Pool.content, Pool.find?_eq_none_iff.2 hnone]
    rfl

/-! ## The claims of a generation that succeeds -/

variable {levels : Nat} {c c' : List Text} {o : Text} {cs : List (Option Text)} {claims : List Claim}

/-- **What is asked for at the end of a path** is asked for in the tree of the text at the top. -/
theorem Descends.asked_subset {path : List Point} {p : Point} (hpath : run.Descends levels pool d c path)
    (hlast : path.getLast? = some p) (htree : run.Regenerated pool d.source d.outermost cs claims) :
    run.asked p.pool p.block.opening ⊆ claims := by
  induction hpath generalizing cs claims with
  | last hgets =>
    cases hlast
    exact htree.asked_subset hgets.mem
  | next hgets hyield _ hd' hpath ih =>
    obtain ⟨q, rest, rfl, -⟩ := hpath.exists_cons
    obtain ⟨cs', inner, hinner, hsubset⟩ := htree.exists_inner hgets.mem ⟨_, _, hyield⟩ hd'
    rw [← Document.source_of_parse hd'] at hinner
    exact List.Subset.trans (ih (by simpa using hlast) hinner) hsubset

/-- An edit that a marker asks for is claimed while the marker is resolved. -/
theorem run_claim_of_mem_asked {evaluate : Evaluator} {source : Text} {m : Marker} {content? : Option Text}
    {claim : Claim} (hasked : claim ∈ run.asked pool m)
    (h : (run.resolve evaluate source pool m).run c = .ok (content?, c')) :
    m.family = .edit ∧ m.name = claim.1 ∧
      (run.claim source pool m).run c = .ok (claim.2, claim.1 :: c) := by
  obtain ⟨hfamily, rfl⟩ := mem_asked_iff.1 hasked
  obtain ⟨u?, c₁, hyield, -⟩ := resolve_eq_ok_iff.1 h
  obtain ⟨hnew, -, -⟩ := (yielded_edit_eq_ok_iff hfamily).1 hyield
  exact ⟨hfamily, rfl, claim_eq_ok_iff.2 ⟨hnew, rfl, rfl⟩⟩

/-- **What is asked for in the tree of a text** that is regenerated is claimed at the end of a path. -/
theorem Regenerated.exists_descends {claim : Claim}
    (htree : run.Regenerated pool d.source d.outermost cs claims) (hclaim : claim ∈ claims)
    (h : (run.directive (run.evaluate levels) pool d).run c = .ok (o, c')) :
    ∃ path p, run.Descends levels pool d c (path ++ [p]) ∧ p.block.family = .edit ∧
      p.block.name = claim.1 ∧ (run.claim p.document.source p.pool p.block.opening).run p.claimed
        = .ok (claim.2, claim.1 :: p.claimed) := by
  -- a tree says nothing of levels, so the induction is on those that are left to the run
  induction levels using Nat.strongRecOn generalizing pool d c c' o cs claims with
  | ind levels ih =>
    obtain ⟨b, hb, hasked⟩ := htree.exists_of_mem hclaim
    obtain ⟨c₁, content?, c₂, hgets, hresolve⟩ := exists_getsTo_of_mem_blocks h hb
    obtain hasked | ⟨u, d', cs', inner, hyield, hd', hinner, hmem⟩ := hasked
    · exact ⟨[], ⟨d, b, pool, c₁⟩, .last hgets, run_claim_of_mem_asked hasked hresolve⟩
    · have hu : u ≠ [] := hinner.ne_nil_of_mem hd' hmem
      obtain ⟨u?, c₃, hyield', hsettle⟩ := resolve_eq_ok_iff.1 hresolve
      obtain rfl := hyield.unique ⟨c₁, c₃, hyield'⟩
      obtain ⟨below, d'', r, rfl, hd'', hdirective⟩ := exists_directive_of_settle hu hsettle
      obtain rfl := Except.ok.inj (hd'.symm.trans hd'')
      rw [← Document.source_of_parse hd'] at hinner
      obtain ⟨path, p, hpath, hp⟩ := ih below below.lt_succ_self hinner hmem hdirective
      exact ⟨⟨d, b, pool, c₁⟩ :: path, p, .next hgets hyield' hu hd' hpath, hp⟩

/-- **The edits that are asked for in the tree of a text** that is regenerated are those that are claimed at
the ends of paths, each with the body that it is put back with. -/
theorem Regenerated.mem_claims_iff {name : Text} {body? : Option Text}
    (htree : run.Regenerated pool d.source d.outermost cs claims)
    (h : (run.directive (run.evaluate levels) pool d).run c = .ok (o, c')) :
    (name, body?) ∈ claims ↔
      ∃ path p, run.Descends levels pool d c (path ++ [p]) ∧ p.block.family = .edit ∧
        p.block.name = name ∧ (run.claim p.document.source p.pool p.block.opening).run p.claimed
          = .ok (body?, name :: p.claimed) := by
  constructor
  · exact fun hclaim => htree.exists_descends hclaim h
  · rintro ⟨path, p, hpath, hfamily, rfl, hclaim⟩
    obtain ⟨-, -, rfl⟩ := claim_eq_ok_iff.1 hclaim
    exact hpath.asked_subset List.getLast?_concat htree (mem_asked_iff.2 ⟨hfamily, rfl⟩)

end Run

namespace Document

/-- **Edits from outside win at every depth.** Take a generation in either mode, and any edit marker that it
gets to, however deeply the text of the marker is nested. If the edit can be claimed there, the body that it
is put back with is the override of its name, if there is one. Otherwise it is the body of the edit of that
name in the outermost layer that has the name, be it none, and there is no body if no layer has it. At the
top an edit of an earlier output comes in the place of one of the document. If the generation succeeds, all
names that have been claimed were claimed by edit markers that it got to in this way. And if the text at the
top was read, which in document mode it always is, the output is written from the contents of a tree, and
what is asked for in the tree is what is claimed at such markers, each name with the body that the edit is
put back with there. -/
theorem body_of_claim {renderer : Renderer} {context : Context} {s : Settings} {mode : Mode}
    {removeMarkers : Bool} {d top : Document} {supplied : Supplied} {pool : Pool}
    (hstarts : (Run.ofRenderer renderer context s removeMarkers supplied.overrides).Starts d
      supplied.recovered mode top pool) :
    let run := Run.ofRenderer renderer context s removeMarkers supplied.overrides
    (∀ path p body? c, run.Descends s.maxDepth pool top [] (path ++ [p]) → p.block.family = .edit →
      (run.claim p.document.source p.pool p.block.opening).run p.claimed = .ok (body?, c) →
        let layers := Run.layers mode d supplied.recovered (path ++ [p])
        (∀ body, supplied.overrides.lookup p.block.name = some body → body? = some body) ∧
        (supplied.overrides.lookup p.block.name = none →
          (∀ edit, layers.Decides p.block.name edit → body? = edit.content) ∧
          ((∀ layer ∈ layers, layer.get? p.block.name = none) → body? = none))) ∧
    (∀ name, (Run.atHand mode d supplied.recovered).get? name
      = (supplied.recovered.get? name).or ((Run.own d mode).get? name)) ∧
    (∀ o claimed, (run.outermost pool top).run [] = .ok (o, claimed) → ∀ name ∈ claimed,
      ∃ path p, run.Descends s.maxDepth pool top [] (path ++ [p]) ∧ p.block.family = .edit ∧
        p.block.name = name ∧ name ∉ p.claimed) ∧
    ∀ t o claimed, parse s t = .ok top → (run.outermost pool top).run [] = .ok (o, claimed) →
      ∃ cs claims, run.Regenerated pool t top.outermost cs claims ∧ o = run.result top cs ∧
        claimed = (claims.map Prod.fst).reverse ∧
        ∀ name body?, (name, body?) ∈ claims ↔
          ∃ path p, run.Descends s.maxDepth pool top [] (path ++ [p]) ∧ p.block.family = .edit ∧
            p.block.name = name ∧ (run.claim p.document.source p.pool p.block.opening).run p.claimed
              = .ok (body?, name :: p.claimed) := by
  intro run
  refine ⟨fun path p body? c hpath _ hclaim => ?_, Run.get?_atHand mode d supplied.recovered,
    fun o claimed hrun name hname => Run.exists_descends_of_mem hrun hname List.not_mem_nil,
    fun t o claimed htop hrun => ?_⟩
  · have hpool : p.pool = Run.layers mode d supplied.recovered (path ++ [p]) :=
      hstarts.pool_eq hpath List.getLast?_concat
    rw [← hpool]
    exact Run.body_eq_of_claim hclaim
  · obtain ⟨cs, claims, htree, -, ho, hclaimed, -⟩ := Run.regenerated_of_outermost htop hrun
    refine ⟨cs, claims, htree, ho, hclaimed, fun name body? => ?_⟩
    rw [← source_of_parse htop] at htree
    exact htree.mem_claims_iff hrun

/-- A document whose generation block holds an edit without a body. -/
def hollow : Document :=
  ((parse .standard "[[[ g ]]]\n<<[ a ]>>\n<<[ end ]>>\n[[[ end ]]]\n").toOption).getD
    { source := [], marks := [], edits := [] }

/-- What its header is rendered to: an edit of the same name, with a body by default. -/
def withDefault : Document :=
  ((parse .standard "<<[ a ]>>\nb\n<<[ end ]>>\n").toOption).getD { source := [], marks := [], edits := [] }

/-- The edit that is claimed inside of the block has no body, since the outer layer decides so. Nothing else is
asked for. -/
theorem body_of_claim_hollow :
    let run := Run.ofRenderer (fun _ _ => .ok "<<[ a ]>>\nb\n<<[ end ]>>\n") [] .standard false []
    let pool := [Run.atHand .directive hollow []]
    run.Starts hollow [] .directive hollow pool ∧
      withDefault.edits.map EditBlock.content = [some ("b" : Text)] ∧
      (∃ path p body? c edit, run.Descends 100 pool hollow [] (path ++ [p]) ∧
        p.document = withDefault ∧ p.block.family = .edit ∧
        (run.claim p.document.source p.pool p.block.opening).run p.claimed = .ok (body?, c) ∧
        (Run.layers .directive hollow [] (path ++ [p])).Decides p.block.name edit ∧
        edit.content = none ∧ body? = edit.content) ∧
      ∃ o cs, (run.outermost pool hollow).run [] = .ok (o, ["a"]) ∧ o = run.result hollow cs ∧
        run.Regenerated pool hollow.source hollow.outermost cs [("a", none)] := by
  intro run pool
  have hstarts : run.Starts hollow [] .directive hollow pool := .directive
  have hd : parse .standard hollow.source = .ok hollow := by rfl
  have hd' : parse .standard "<<[ a ]>>\nb\n<<[ end ]>>\n" = .ok withDefault := by rfl
  let path : List Point := [⟨hollow, hollow.outermost.head (by decide +kernel), pool, []⟩]
  let p : Point := ⟨withDefault, withDefault.outermost.head (by decide +kernel),
    Pool.beneath pool withDefault.edits, []⟩
  have hpath : run.Descends 100 pool hollow [] (path ++ [p]) :=
    .next .here rfl (by decide +kernel) hd' (.last .here)
  have hfamily : p.block.family = .edit := by decide +kernel
  have hname : p.block.name = "a" := by decide +kernel
  have hclaim : (run.claim p.document.source p.pool p.block.opening).run p.claimed
      = .ok (none, ["a"]) := by rfl
  have hdecides : (Run.layers .directive hollow [] (path ++ [p])).Decides p.block.name
      (hollow.edits.head (by decide +kernel)) := ⟨[], _, _, rfl, rfl, by simp⟩
  have hrun : (run.outermost pool hollow).run []
      = .ok ("[[[ g ]]]\n<<[ a ]>>\n<<[ end ]>>\n[[[ end ]]]\n", ["a"]) := by decide +kernel
  obtain ⟨hbody, -, -, htree⟩ := @body_of_claim _ _ _ _ false _ _ {} _ hstarts
  obtain ⟨cs, claims, htree, ho, hclaimed, hiff⟩ := htree _ _ _ hd hrun
  have hmem := (hiff "a" none).2 ⟨path, p, hpath, hfamily, hname, hclaim⟩
  obtain ⟨claim, rfl⟩ : ∃ claim, claims = [claim] :=
    List.length_eq_one_iff.1 (by simpa using (congrArg List.length hclaimed).symm)
  obtain rfl := List.mem_singleton.1 hmem
  have hbody := hbody path p none ["a"] hpath hfamily hclaim
  exact ⟨hstarts, by decide +kernel, ⟨path, p, none, ["a"], _, hpath, rfl, hfamily, hclaim, hdecides,
    by decide +kernel, (hbody.2 rfl).1 _ hdecides⟩, _, cs, hrun, ho, htree⟩

end Document

end Regen
