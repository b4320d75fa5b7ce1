import Regen.Proofs.LineEnds
import Regen.Proofs.Rendering

/-!
# Rendering a file in place

A master that is rendered onto the file it was read from recovers no edits, for its own are at hand
already. What is generated from it is its text with the bodies of the outermost blocks replaced, and
this text is the one that was read, with plain line feeds. If the line ends of the file agree, writing
undoes reading, stretch by stretch. **So the file keeps its bytes** outside of these bodies
(`Master.renderFile_inPlace`), carriage returns that end no line included.
-/

namespace Regen.Master

variable {m : Master} {r : Recipe} {output? : Option Path} {tree tree' : FileTree}
  {rendered : Rendered} {settings : Settings} {mode : Mode} {p q : Path} {t : Text}

/-- A master is read if its file is, and its text with plain line feeds is a document. -/
theorem ofFile_eq_ok_iff :
    ofFile tree settings mode p = .ok m ↔
      ∃ t, tree.readText p = .ok t ∧ Document.parse settings t.normalizeNewlines = .ok m.document ∧
        m.settings = settings ∧ m.mode = mode ∧ m.input = some p ∧
        m.hadCarriageReturns = t.hasCarriageReturns := by
  unfold ofFile ofText
  simp only [bind_eq_ok_iff, Outcome.ofFile_eq_ok_iff]
  constructor
  · rintro ⟨t, hread, _, ⟨d, hd, ⟨⟩⟩, ⟨⟩⟩
    exact ⟨t, hread, hd, rfl, rfl, rfl, rfl⟩
  · rintro ⟨t, hread, hd, hsettings, hmode, hinput, hreturns⟩
    refine ⟨t, hread, _, ⟨_, hd, rfl⟩, ?_⟩
    rw [← hsettings, ← hmode, ← hinput, ← hreturns]
    rfl

/-- The output goes to the given path, or else to the file that the master was read from. -/
theorem outputPath_eq_ok_iff :
    m.outputPath output? = .ok q ↔ output? = some q ∨ output? = none ∧ m.input = some q := by
  unfold outputPath
  cases output? with
  | none => cases m.input <;> simp [fail]
  | some path => simp

/-- An output without a path, or with one that leads to the file of the master, goes to that file. -/
theorem same_outputPath {bytes : Text} (hread : tree.readBytes p = .ok bytes)
    (hinput : m.input = some p) (hsame : ∀ q ∈ output?, q = p ∨ tree.same p q = true)
    (hpath : m.outputPath output? = .ok q) : tree.same p q = true := by
  have hself := FileTree.same_self hread
  rcases outputPath_eq_ok_iff.1 hpath with houtput | ⟨-, hinput'⟩
  · rcases hsame q houtput with rfl | hsame
    · exact hself
    · exact hsame
  · cases hinput.symm.trans hinput'
    exact hself

/-- In the file that the master was read from, there is no earlier output. -/
theorem previousAt_of_isInput (h : m.isInput tree p = true) : m.previousAt tree p = .ok none := by
  rw [previousAt, if_pos (by rw [h, Bool.or_true])]

/-- The stretches of its file in which the bodies of the outermost blocks of a master stand, from the
end of the span that opens a block to the start of the one that ends it. -/
def bodySpans (m : Master) : List Span :=
  m.document.outermost.map fun b =>
    Text.spanInFile m.newline m.document.source ⟨b.openSpan.stop, b.endSpan.start⟩

/-- **Bodies stand in order in their file.** -/
theorem bodySpans_ordered (hd : Document.parse settings t = .ok m.document) :
    (∀ s ∈ m.bodySpans, s.start ≤ s.stop ∧ s.stop ≤ (t.inFile m.newline).length) ∧
      m.bodySpans.Pairwise fun s s' => s.stop ≤ s'.start := by
  obtain ⟨hordered, hdisjoint⟩ := Document.spans_ordered hd 1
  rw [bodySpans, Document.source_of_parse hd]
  refine ⟨List.forall_mem_map.2 fun b hb => ?_, List.pairwise_map.2 ?_⟩
  · obtain ⟨-, hinner, -, -⟩ := hordered b hb
    exact ⟨Text.offsetInFile_le_offsetInFile _ t hinner, Text.offsetInFile_le_length _ t _⟩
  · refine hdisjoint.imp_of_mem fun {b b'} hb hb' h => Text.offsetInFile_le_offsetInFile _ t ?_
    exact (hordered b hb).2.2.1.trans (h.trans (hordered b' hb').1)

/-- The stretches that are written anew, as they are in a file. -/
theorem map_patched_inFile (mark? : Option Text) (t : Text) (bs : List Block)
    (cs : List (Option Text)) :
    (List.zipWith (Block.patched false) bs cs).map
        (fun s => (Text.spanInFile mark? t s.1, s.2.inFile mark?))
      = (bs.map fun b => Text.spanInFile mark? t ⟨b.openSpan.stop, b.endSpan.start⟩).zip
          (List.zipWith (fun b c => (b.rewritten [Text.space] c).inFile mark?) bs cs) := by
  induction bs generalizing cs with
  | nil => rfl
  | cons b bs ih =>
    cases cs with
    | nil => rfl
    | cons c cs =>
      simp only [List.zipWith_cons_cons, List.map_cons, List.zip_cons_cons, ih]
      rfl

/-- **What is generated in directive mode, as it is in a file**: the file with the bodies of outermost
blocks replaced. -/
theorem inFile_of_renderWith (hd : Document.parse m.settings t = .ok m.document)
    (hmode : m.mode = .directive) (hmarkers : r.removeMarkers = false) {supplied : Supplied}
    {content : Text} (h : m.renderWith r supplied = .ok content) :
    ∃ bodies : List Text, bodies.length = m.bodySpans.length ∧
      content.inFile m.newline = (t.inFile m.newline).patch 0 (m.bodySpans.zip bodies) := by
  rw [renderWith, hmode, hmarkers] at h
  obtain ⟨cs, claimed, hcs, -, rfl, -⟩ := (Document.generate_eq_ok_iff hd).1 h
  have hlength := Run.length_contents hcs
  refine ⟨List.zipWith (fun b c => (b.rewritten [Text.space] c).inFile m.newline)
    m.document.outermost cs, ?_, ?_⟩
  · rw [bodySpans, List.length_map, List.length_zipWith, hlength, Nat.min_self]
  · rw [Text.inFile_patch, map_patched_inFile, Text.offsetInFile_zero, bodySpans,
      Document.source_of_parse hd]

/-- **A file keeps its bytes outside of bodies.** Take a file whose line feeds all follow carriage
returns, or none of them does, and a master read from it, with no line end in its settings and for
directive mode. If it is rendered onto the same file and markers are kept, the file then holds the
bytes of before with the bodies of the outermost blocks replaced, each between the span that opens
its block and the one that ends it; these stretches are in order.

And with carriage returns asked for by the settings, whatever is rendered to whatever file is read
from there as it was generated. -/
theorem renderFile_inPlace (h : m.renderFile tree r output? = .ok (rendered, tree')) :
    (∀ (settings : Settings) (p : Path) (t : Text), tree.readBytes p = .ok t →
      t.EndsReturned ∨ t.EndsPlain → settings.newline = none →
      ofFile tree settings .directive p = .ok m → r.removeMarkers = false →
      (∀ q ∈ output?, q = p ∨ tree.same p q = true) →
      m.document.source = t.normalizeNewlines ∧ m.document.source.inFile m.newline = t ∧
      (∀ s ∈ m.bodySpans, s.start ≤ s.stop ∧ s.stop ≤ t.length) ∧
      (m.bodySpans.Pairwise fun s s' => s.stop ≤ s'.start) ∧
      ∃ bodies : List Text, bodies.length = m.bodySpans.length ∧
        tree'.readBytes p = .ok (t.patch 0 (m.bodySpans.zip bodies))) ∧
    (m.settings.newline = some ("\r\n" : Text) →
      ∃ bytes, tree'.readBytes rendered.path = .ok bytes ∧
        bytes.normalizeNewlines = rendered.content) := by
  obtain ⟨hpreview, hupdate⟩ := renderFile_eq_ok_iff.1 h
  obtain ⟨place, hplace, hreplaced, -⟩ := FileTree.update_eq_ok hupdate
  have hwritten := hreplaced.readBytes_eq hplace
  constructor
  · intro settings p t hread hends hnewline hm hmarkers hsame
    obtain ⟨t', hread', hd, rfl, hmode, hinput, hreturns⟩ := ofFile_eq_ok_iff.1 hm
    cases hread.symm.trans (FileTree.readText_eq_ok_iff.1 hread').1
    obtain ⟨hpath, ⟨previous?, hprevious, hrender⟩, -⟩ := preview_eq_ok_iff.1 hpreview
    -- The path of the output leads to the file of the master, so no edits are recovered.
    have hsame : tree.same p rendered.path = true := same_outputPath hread hinput hsame hpath
    have hisInput : m.isInput tree rendered.path = true := by
      rw [isInput, hinput]
      exact hsame
    cases (previousAt_of_isInput hisInput).symm.trans hprevious
    have hfile : t.normalizeNewlines.inFile m.newline = t := by
      rw [newline, hnewline, hreturns]
      exact Text.inFile_normalizeNewlines hends
    obtain ⟨bodies, hlength, hcontent⟩ := inFile_of_renderWith hd hmode hmarkers hrender
    obtain ⟨hordered, hdisjoint⟩ := bodySpans_ordered hd
    have hsource := Document.source_of_parse hd
    obtain ⟨place', hp, hplace', -⟩ := FileTree.same_iff.1 hsame
    cases hplace.symm.trans hplace'
    rw [hfile] at hordered hcontent
    refine ⟨hsource, by rw [hsource, hfile], hordered, hdisjoint, bodies, hlength, ?_⟩
    rw [← hcontent]
    exact hreplaced.readBytes_eq hp
  · intro hnewline
    refine ⟨_, hwritten, ?_⟩
    rw [newline, hnewline]
    exact Text.normalizeNewlines_withNewline _

/-- The file is rendered in place, and its carriage returns stay, the one at its end and the doubled one
included. What is rendered elsewhere with carriage returns is read as it was generated. -/
theorem renderFile_inPlace_sample :
    (∃ rendered tree', sample.renderFile .sample .echo none = .ok (rendered, tree') ∧
      sample.bodySpans = [⟨15, 15⟩] ∧ ∃ body : Text, tree'.readBytes "/a" =
        .ok ("p\r\r\n[[[ x ]]]\r\n" ++ body ++ "[[[ end ]]]\r\nq\r" : Text)) ∧
    ∃ rendered tree' bytes,
      { sample with settings.newline := some ("\r\n" : Text) }.renderFile .sample .echo (some "/b")
        = .ok (rendered, tree') ∧
      tree'.readBytes "/b" = .ok bytes ∧ bytes.normalizeNewlines = rendered.content := by
  constructor
  · obtain ⟨rendered, tree', h⟩ :
        ∃ rendered tree', sample.renderFile .sample .echo none = .ok (rendered, tree') :=
      ⟨_, _, by rfl⟩
    obtain ⟨-, -, -, -, bodies, hlength, hread⟩ := (renderFile_inPlace h).1 .standard "/a"
      "p\r\r\n[[[ x ]]]\r\n[[[ end ]]]\r\nq\r" (by rfl) (by decide +kernel) rfl (by rfl) rfl nofun
    have hspans : sample.bodySpans = [⟨15, 15⟩] := by decide +kernel
    rw [hspans] at hlength hread
    obtain ⟨body, rfl⟩ := List.length_eq_one_iff.1 hlength
    exact ⟨rendered, tree', h, hspans, body, hread⟩
  · obtain ⟨rendered, tree', h, hpath⟩ :
        ∃ rendered tree', { sample with settings.newline := some ("\r\n" : Text) }.renderFile .sample
          .echo (some "/b") = .ok (rendered, tree') ∧ rendered.path = "/b" := ⟨_, _, by rfl, by rfl⟩
    obtain ⟨bytes, hread, hcontent⟩ := (renderFile_inPlace h).2 rfl
    exact ⟨rendered, tree', bytes, h, hpath ▸ hread, hcontent⟩

end Regen.Master
