import Mathlib.Data.List.Nodup
import Regen.Proofs.Modes
import Regen.Proofs.Regeneration

/-!
# Edits that are put back

A generation must not eat what somebody wrote by hand. It could do so in three ways: by never asking for
an edit, by asking for it twice, or by asking for it and then losing what it yields on the way out, where a
content is trimmed, indented and written into the text around it, level by level.

The first two are matters of book-keeping, and the tree of a generation keeps the books: no edit is asked
for twice anywhere in it, and what must not be lost has been asked for (`Run.Accounted`). The third is a
matter of lines. All that is done to a content on its way out leaves its lines in one piece, so **a line that
was put back is found in the output** (`Run.Regenerated.infix_contents`), whatever is written around it.
`Document.generate_accounted` has all three.
-/

namespace Regen

open Text (newline lines)

/-! ## Lines inside a text -/

namespace Text

variable {line : Text}

/-- What holds no line feed lies in front of one or behind it. -/
theorem infix_append_newline {x z : Text} (hline : newline ∉ line)
    (h : line <:+: x ++ newline :: z) : line <:+: x ∨ line <:+: z := by
  obtain ⟨a, c, h⟩ := h
  rcases List.append_eq_append_iff.1 h with ⟨w, rfl, -⟩ | ⟨w, hw, hz⟩
  · exact .inl ⟨a, w, rfl⟩
  · cases w with
    | nil => exact .inl ⟨a, [], by simpa using hw⟩
    | cons b w =>
      obtain ⟨rfl, rfl⟩ := List.cons.inj hz
      rcases List.append_eq_append_iff.1 hw with ⟨v, -, hv⟩ | ⟨v, -, hv⟩
      · exact absurd (hv ▸ by simp) hline
      · cases v with
        | nil => exact absurd (by simpa using (congrArg (newline ∈ ·) hv)) hline
        | cons b v =>
          obtain ⟨rfl, rfl⟩ := List.cons.inj hv
          exact .inr ⟨v, c, rfl⟩

/-- What holds no line feed lies in one line. -/
theorem exists_mem_lines_of_infix {x : Text} (hline : newline ∉ line) (h : line <:+: x) :
    ∃ l ∈ lines x, line <:+: l := by
  induction x using line_induction with
  | last x hx =>
    rw [lines_of_notMem hx]
    exact ⟨x, List.mem_singleton_self x, h⟩
  | more first rest hfirst ih =>
    rw [lines_append_newline hfirst]
    rcases infix_append_newline hline h with h | h
    · exact ⟨first, by simp, h⟩
    · obtain ⟨l, hl, h⟩ := ih h
      exact ⟨l, by simp [hl], h⟩

/-- Each of the lines is a part of the text. -/
theorem infix_ofLines {ls : List Text} (h : line ∈ ls) : line <:+: ofLines ls := by
  induction ls with
  | nil => cases h
  | cons l ls ih =>
    cases ls with
    | nil =>
      obtain rfl := List.mem_singleton.1 h
      exact (ofLines_singleton line).symm ▸ List.infix_rfl
    | cons l' ls =>
      rw [ofLines_cons _ (List.cons_ne_nil l' ls)]
      rcases List.mem_cons.1 h with rfl | h
      · exact (List.prefix_append _ _).isInfix
      · exact (ih h).trans (List.suffix_append_of_suffix (List.suffix_cons _ _)).isInfix

/-- What is written in the place of a stretch is a part of the new text. -/
theorem infix_patch (t : Text) {p : Span × Text} {spans : List (Span × Text)} (h : p ∈ spans)
    (offset : Nat) : p.2 <:+: t.patch offset spans := by
  induction spans generalizing offset with
  | nil => cases h
  | cons q spans ih =>
    rw [patch]
    rcases List.mem_cons.1 h with rfl | h
    · exact List.infix_append _ _ _
    · exact (ih h q.1.stop).trans (List.suffix_append _ _).isInfix

end Text

/-! ## The way out of a content -/

/-- A line stays when the content that it stands in is written for a block. -/
theorem Block.infix_rewritten (b : Block) (padding : Text) {content? : Option Text} {line : Text}
    (hline : newline ∉ line) (h : line <:+: content?.getD []) :
    line <:+: b.rewritten padding content? := by
  unfold rewritten
  split
  · exact h.trans (List.infix_append _ _ _)
  · cases content? with
    | none => exact h.trans List.infix_rfl
    | some content =>
      obtain ⟨l, hl, h⟩ := Text.exists_mem_lines_of_infix hline h
      have hindented : b.opening.bodyIndent ++ l ∈ (lines content).map (b.opening.bodyIndent ++ ·) :=
        List.mem_map_of_mem hl
      exact (h.trans (List.suffix_append _ _).isInfix).trans
        ((Text.infix_ofLines hindented).trans (List.prefix_append _ _).isInfix)

namespace Run

variable {run : Run} {line : Text}

/-- A line stays when the line feed behind it is dropped. -/
theorem infix_dropFinalNewline {x : Text} (hline : newline ∉ line) (h : line <:+: x) :
    line <:+: dropFinalNewline x := by
  unfold dropFinalNewline
  split
  · rename_i hlast
    rw [← List.dropLast_append_getLast? newline hlast] at h
    refine (Text.infix_append_newline hline h).elim id fun hnil => ?_
    rw [List.infix_nil.1 hnil]
    exact List.nil_infix
  · exact h

/-- A line stays when what it stands in becomes the content of a block. -/
theorem infix_settled {u r : Text} (hu : u = [] → r = []) (hline : newline ∉ line) (h : line <:+: r) :
    line <:+: (run.settled u r).getD [] := by
  unfold settled
  split
  · rename_i hempty
    rwa [hu (List.isEmpty_iff.1 hempty)] at h
  · have hdrop := infix_dropFinalNewline hline h
    unfold finish
    split
    · rename_i hfinish
      rw [Bool.and_eq_true, List.isEmpty_iff] at hfinish
      rwa [hfinish.2] at hdrop
    · exact hdrop

/-- A line stays when the contents of blocks are written into their text. -/
theorem infix_result {d : Document} {cs : List (Option Text)} (hlength : cs.length = d.outermost.length)
    {content? : Option Text} (hcontent : content? ∈ cs) (hline : newline ∉ line)
    (h : line <:+: content?.getD []) : line <:+: run.result d cs := by
  obtain ⟨i, hi, rfl⟩ := List.getElem_of_mem hcontent
  have hi' : i < d.outermost.length := hlength ▸ hi
  have hzip : i < (List.zipWith (Block.patched run.removeMarkers) d.outermost cs).length := by
    rw [List.length_zipWith]
    exact lt_min hi' hi
  have hpatched := List.getElem_mem hzip
  rw [List.getElem_zipWith] at hpatched
  refine List.IsInfix.trans ?_ (Text.infix_patch d.source hpatched 0)
  unfold Block.patched
  split <;> exact Block.infix_rewritten _ _ hline h

/-- **A line that is put back is found in the contents**, if no marker is in what it is a line of. -/
theorem Regenerated.infix_contents {pool : Pool} {source : Text} {bs : List Block}
    {cs : List (Option Text)} {claims : List Claim} (h : run.Regenerated pool source bs cs claims)
    {name u : Text} (hclaim : (name, some u) ∈ claims) (hu : u.Plain run.settings)
    (hmem : line ∈ lines u) : ∃ content? ∈ cs, line <:+: content?.getD [] := by
  have hline : newline ∉ line := Text.newline_notMem_of_mem_lines hmem
  -- an edit that yields something is put back with that
  have hasked : ∀ {source : Text} {pool : Pool} {m : Marker} {v? : Option Text},
      run.Yields source pool m v? → (name, some u) ∈ run.asked pool m → v? = some u := by
    intro source pool m v? hyield hasked
    unfold asked at hasked
    split at hasked
    · rename_i hfamily
      rw [hyield.eq_chosen hfamily]
      simpa using (congrArg Prod.snd (List.mem_singleton.1 hasked)).symm
    · cases hasked
  induction h with
  | nil => cases hclaim
  | bare hyield _ ih =>
    rcases List.mem_append.1 hclaim with hclaim | hclaim
    · cases hasked hyield hclaim
    · obtain ⟨content?, hcontent, h⟩ := ih hclaim
      exact ⟨content?, by simp [hcontent], h⟩
  | @filled pool source v b bs d cs cs' inner claims hyield hd hinner _ _ ihInner ihRest =>
    have hnil : v = [] → run.result d cs' = [] := by
      rintro rfl
      exact result_of_parse_nil hd cs'
    rw [List.append_assoc, List.mem_append, List.mem_append] at hclaim
    rcases hclaim with hclaim | hclaim | hclaim
    · -- a plain yield is regenerated to itself
      obtain rfl : v = u := Option.some.inj (hasked hyield hclaim)
      refine ⟨_, List.mem_cons_self, infix_settled hnil hline ?_⟩
      rw [result_of_plain hd hu, ← Text.ofLines_lines v]
      exact Text.infix_ofLines hmem
    · obtain ⟨content?, hcontent, h⟩ := ihInner hclaim
      exact ⟨_, List.mem_cons_self, infix_settled hnil hline
        (infix_result hinner.length_eq hcontent hline h)⟩
    · obtain ⟨content?, hcontent, h⟩ := ihRest hclaim
      exact ⟨content?, by simp [hcontent], h⟩

/-! ## The books of a generation -/

/-- **The books of a generation**: the edits that were asked for, against those that must not be lost and
against the output. -/
structure Accounted (s : Settings) (edits : Edits) (claims : List Claim) (o : Text) : Prop where
  /-- No edit was asked for twice. -/
  nodup : (claims.map Prod.fst).Nodup
  /-- What must not be lost was asked for, once. -/
  count_eq_one : ∀ e ∈ edits, e.mayBeLost = false → (claims.map Prod.fst).count e.name = 1
  /-- What was put back and holds no marker is in the output, line by line. -/
  infix_output : ∀ name u, (name, some u) ∈ claims → (∀ f, ¬ (s.tokens f).opener <:+: u) →
    ∀ line ∈ lines u, line <:+: o

/-- The books of a tree are in order if no edit at hand is lost. -/
theorem Regenerated.accounted {t : Text} {d : Document} {pool : Pool} {cs : List (Option Text)}
    {claims : List Claim} (hs : Document.Usable run.settings)
    (h : run.Regenerated pool t d.outermost cs claims) (hnodup : (claims.map Prod.fst).Nodup)
    {edits : Edits} (hcheck : edits.checkClaimed (claims.map Prod.fst).reverse = .ok ()) :
    Accounted run.settings edits claims (run.result d cs) where
  nodup := hnodup
  count_eq_one e he hkept := by
    have hclaimed := Edits.checkClaimed_eq_ok_iff.1 hcheck e he hkept
    exact List.count_eq_one_of_mem hnodup (List.mem_reverse.1 hclaimed)
  infix_output name u hclaim hu line hline := by
    have hplain : u.Plain run.settings := (Text.plain_iff hs).2 hu
    obtain ⟨content?, hcontent, hinfix⟩ := h.infix_contents hclaim hplain hline
    exact infix_result h.length_eq hcontent (Text.newline_notMem_of_mem_lines hline) hinfix

/-- **The books of the text at the top** are in order if it is regenerated and no edit at hand is lost. -/
theorem exists_accounted {t o : Text} {d : Document} {pool : Pool} {edits : Edits}
    {claimed : List Text} (hd : Document.parse run.settings t = .ok d)
    (hrun : (run.outermost pool d).run [] = .ok (o, claimed))
    (hcheck : edits.checkClaimed claimed = .ok ()) :
    ∃ cs, ∃ claims : List Claim,
      (run.outermost pool d).run [] = .ok (o, (claims.map Prod.fst).reverse) ∧
      run.Regenerated pool d.source d.outermost cs claims ∧ o = run.result d cs ∧
      Accounted run.settings edits claims o := by
  have husable := Document.usable_of_parse hd
  obtain ⟨cs, claims, htree, -, rfl, rfl, hnodup⟩ := regenerated_of_outermost hd hrun
  refine ⟨cs, claims, hrun, ?_, rfl, htree.accounted husable hnodup hcheck⟩
  rwa [Document.source_of_parse hd]

end Run

namespace Document

open Run (Claim atHand)

/-- **No edit is lost or put back twice without an error.** A generation that succeeds, in either mode,
asks for edits as the tree of its top text says, and its books are in order (`Run.Accounted`), at whatever
depth an edit was asked for. At hand are in either mode the edits of an earlier output, and in directive mode
also those of the document that they do not replace; all of them may have been altered from outside. -/
theorem generate_accounted {s : Settings} {t : Text} {d : Document} (hd : parse s t = .ok d)
    {renderer : Renderer} {context : Context} {mode : Mode} {removeMarkers : Bool} {edits : Edits}
    {supplied : Supplied} {o : Text}
    (h : generate renderer context s mode removeMarkers { d with edits } supplied = .ok o) :
    let run := Run.ofRenderer renderer context s removeMarkers supplied.overrides
    supplied.recovered ⊆ atHand mode { d with edits } supplied.recovered ∧
      ∃ top pool cs, ∃ claims : List Claim,
        run.Starts { d with edits } supplied.recovered mode top pool ∧
        (run.outermost pool top).run [] = .ok (o, (claims.map Prod.fst).reverse) ∧
        run.Regenerated pool top.source top.outermost cs claims ∧ o = run.result top cs ∧
        Run.Accounted s (atHand mode { d with edits } supplied.recovered) claims o := by
  intro run
  refine ⟨Run.subset_atHand _ _ _, ?_⟩
  obtain ⟨husable, -⟩ := parse_eq_ok_iff.1 hd
  obtain ⟨top, pool, claimed, hstarts, hrun, hcheck⟩ := (Run.generate_eq_ok_iff husable).1 h
  cases hstarts with
  | directive =>
    -- the edits of the document are among those at hand, and are not looked at otherwise
    obtain ⟨cs, claims, hgrown⟩ := Run.exists_accounted (d := d) hd hrun hcheck
    exact ⟨_, _, cs, claims, .directive, hgrown⟩
  | document hrendered htop =>
    obtain ⟨cs, claims, hgrown⟩ := Run.exists_accounted htop hrun hcheck
    exact ⟨top, _, cs, claims, .document hrendered htop, hgrown⟩

/-- A generation block whose header yields an edit, and behind it an edit of the document. -/
def nested : Document :=
  ((parse .standard "[[[ a ]]]\n[[[ end ]]]\n<<[ c ]>>\n y\n<<[ end ]>>\n").toOption).getD
    { source := [], marks := [], edits := [] }

/-- The edit that the header yields and the edit of the document are each put back once, the one with an
override and the other with its own body. -/
theorem generate_accounted_nested :
    let run := Run.ofRenderer (fun _ _ => .ok "<<[ b ]>> <<[ end ]>>") [] .standard false [("b", "x")]
    let o : Text := "[[[ a ]]]\n<<[ b ]>> x <<[ end ]>>\n[[[ end ]]]\n<<[ c ]>>\n y\n<<[ end ]>>\n"
    parse .standard "[[[ a ]]]\n[[[ end ]]]\n<<[ c ]>>\n y\n<<[ end ]>>\n" = .ok nested ∧
      generate (fun _ _ => .ok "<<[ b ]>> <<[ end ]>>") [] .standard .directive false nested
        { overrides := [("b", "x")] } = .ok o ∧
      ∃ top pool cs, ∃ claims : List Claim,
        run.Starts nested [] .directive top pool ∧
        (run.outermost pool top).run [] = .ok (o, (claims.map Prod.fst).reverse) ∧
        run.Regenerated pool top.source top.outermost cs claims ∧ o = run.result top cs ∧
        Run.Accounted .standard (atHand .directive nested []) claims o := by
  intro run o
  have hd : parse .standard "[[[ a ]]]\n[[[ end ]]]\n<<[ c ]>>\n y\n<<[ end ]>>\n" = .ok nested := by
    rfl
  have ho : generate (fun _ _ => .ok "<<[ b ]>> <<[ end ]>>") [] .standard .directive false nested
      { overrides := [("b", "x")] } = .ok o := by
    decide +kernel
  exact ⟨hd, ho, (generate_accounted hd ho).2⟩

end Document

end Regen
