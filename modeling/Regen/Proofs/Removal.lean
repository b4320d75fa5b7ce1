import Regen.Proofs.Overlap
import Regen.Proofs.Readback
import Regen.Proofs.StaleText

/-!
# Output without markers

When markers are removed, nothing that is read as a marker should be left. No opener is left in a content,
since it has been regenerated before it is written, and there is none in the text between two blocks. But a text is
put together from these parts, and where they meet, the end of the one and the beginning of the other may make
up an opener. With markers kept, the padding of an inline block stands between them. With markers removed nothing does
(`Document.not_parse_of_generate_removed`).

**If no byte of an opener stands next to an inline block, and no two of them touch, no marker is left**
(`Document.parse_of_generate_removed`). This is asked for in all texts that are read, and not for blocks of whole lines:
what is put together there is whole lines.
-/

namespace Regen

open Text (newline IsGap Severed Whole)
open Lexeme (ofText textOf)

/-! ## Plain texts that are put together -/

namespace Text

variable {x y : Text}

/-- Plain texts that are severed make up a plain text. -/
theorem Plain.append {s : Settings} (hx : x.Plain s) (hy : y.Plain s)
    (h : ∀ f, Severed (s.tokens f).opener x y) : (x ++ y).Plain s := by
  intro f
  have hx : Clear (s.tokens f).opener x ([] ++ y) :=
    (hx f).append_of_severed (by rw [List.append_nil]; exact h f)
  exact (clear_append ..).2 ⟨by rwa [List.append_nil], hy f⟩

end Text

/-! ## The text between outermost blocks -/

/-- **Where no marker is, lexemes are bytes.** -/
theorem Lexeme.exists_ofText {s : Settings} {x y z : Text} {ls : List Lexeme} {ms : List Marker}
    (hread : markersFrom s [] ls [] = some ms) (htext : textOf s ls = x ++ y ++ z)
    (hmarkers : ∀ m ∈ ms, m.openAt < m.closeEnd ∧ (m.closeEnd ≤ x.length ∨ (x ++ y).length ≤ m.openAt)) :
    ∃ ls₁ ls₂, ls = ls₁ ++ ofText y ++ ls₂ := by
  rw [List.append_assoc] at htext
  simp only [List.length_append] at hmarkers
  obtain ⟨ls₁, ls', rfl, rfl, hrest⟩ := exists_cut_at hread htext fun m hm => by
    obtain ⟨hwidth, hm⟩ := hmarkers m hm
    rw [List.nil_append]
    omega
  obtain ⟨ms₁, ms', -, hread', rfl⟩ := markersFrom_append.1 hread
  obtain ⟨ls₂, ls₃, rfl, rfl, rfl⟩ := exists_cut_at hread' hrest fun m hm => by
    obtain ⟨hwidth, hm⟩ := hmarkers m (by simp [hm])
    simp only [List.nil_append, List.length_append]
    omega
  obtain ⟨ms₂, ms₃, hread₂, -, rfl⟩ := markersFrom_append.1 hread'
  have hnone : ms₂ = [] := List.eq_nil_iff_forall_not_mem.2 fun m hm => by
    obtain ⟨hwidth, hside⟩ := hmarkers m (by simp [hm])
    obtain ⟨-, hstart, hstop⟩ := (stands_of_markersFrom hread₂).1 m hm
    simp only [List.nil_append, List.length_append] at hstart hstop
    omega
  obtain ⟨u, rfl⟩ := eq_ofText_of_markersFrom (hnone ▸ hread₂)
  exact ⟨ls₁, ls₃, by simp⟩


section

variable {s : Settings} {t : Text} {d : Document}

/-- Each mark belongs to an outermost block, or stands between the marks of one. -/
theorem Outermost.exists_outermost {R : Mark → Mark → Prop} {previous? : Option Block} {marks : List Mark}
    (h : Outermost t previous? marks) (hR : marks.Pairwise R) : ∀ m ∈ marks, ∃ g ∈ Mark.outermost marks,
      (m = .opening g ∨ R (.opening g) m) ∧ (m = .ending g ∨ R m (.ending g)) := by
  induction h with
  | nil => simp
  | @block previous? b inner rest henclosed _ _ ih =>
    obtain ⟨hopening, hR⟩ := List.pairwise_cons.1 hR
    obtain ⟨-, hrest, hinner⟩ := List.pairwise_append.1 hR
    rw [Mark.outermost_block henclosed]
    intro m hm
    simp only [List.mem_cons, List.mem_append] at hm
    rcases hm with rfl | hm | rfl | hm
    · exact ⟨b, by simp, .inl rfl, .inr (hopening _ (by simp))⟩
    · exact ⟨b, by simp, .inr (hopening _ (by simp [hm])), .inr (hinner m hm _ (by simp))⟩
    · exact ⟨b, by simp, .inr (hopening _ (by simp)), .inl rfl⟩
    · obtain ⟨g, hg, hmem⟩ := ih hrest.of_cons m hm
      exact ⟨g, List.mem_cons_of_mem b hg, hmem⟩

namespace Document

/-- Outermost blocks are blocks of the document. -/
theorem mem_blocks_of_outermost {b : Block} (hb : b ∈ d.outermost) : b ∈ d.blocks := (List.mem_filter.1 hb).1

/-- Each marker stands between the ends of an outermost block. -/
theorem exists_outermost_span (hd : parse s t = .ok d) {m : Mark} (hm : m ∈ d.marks) : ∃ g ∈ d.outermost,
    g.openSpan.start ≤ m.marker.openAt ∧ m.marker.closeEnd ≤ g.endSpan.stop := by
  have houter := outermost_of_parse hd
  obtain ⟨g, hg, hopening, hending⟩ := houter.exists_outermost (pairwise_before hd).1 m hm
  have hstands := stands_of_mem_blocks hd g (mem_blocks_of_outermost hg)
  obtain ⟨hstart, -⟩ := Mark.le_span (m := .opening g) hstands
  obtain ⟨-, hstop⟩ := Mark.le_span (m := .ending g) hstands
  obtain ⟨hopens, hends⟩ := marks_of_mem_blocks hd (mem_blocks_of_outermost hg)
  refine ⟨g, hg, hstart.trans ?_, le_trans ?_ hstop⟩
  · rcases hopening with rfl | hbefore
    · exact le_rfl
    · exact (openAt_lt_closeEnd hd hopens).le.trans hbefore.ordered
  · rcases hending with rfl | hbefore
    · exact le_rfl
    · exact hbefore.ordered.trans (openAt_lt_closeEnd hd hends).le

/-- **Between outermost blocks the text is plain.** -/
theorem plain_extract (hd : parse s t = .ok d) {i j : Nat} (hij : i ≤ j) (hj : j ≤ t.length)
    (hgap : ∀ b ∈ d.outermost, b.endSpan.stop ≤ i ∨ j ≤ b.openSpan.start) : Text.Plain s (t.extract i j) := by
  obtain ⟨ls, hlexed, htext, hread⟩ := exists_lexed_of_parse hd
  have hsplit : t = t.take i ++ t.extract i j ++ t.drop j := by
    rw [Text.take_append_extract t hij, List.take_append_drop]
  rw [hsplit] at htext
  obtain ⟨ls₁, ls₂, rfl⟩ := Lexeme.exists_ofText hread htext fun m hm => by
    obtain ⟨n, hn, rfl⟩ := List.mem_map.1 hm
    obtain ⟨g, hg, hstart, hstop⟩ := exists_outermost_span hd hn
    refine ⟨openAt_lt_closeEnd hd hn, ?_⟩
    rw [Text.take_append_extract t hij, List.length_take, List.length_take, min_eq_left hj,
      min_eq_left (hij.trans hj)]
    exact (hgap g hg).imp hstop.trans fun h => h.trans hstart
  exact Lexeme.lexed_ofText_iff.1 hlexed.of_append_left.of_append_right

end Document

end

/-! ## Blocks that are set apart -/

/-- **A foreign byte**, if there is one at all: no opener holds it. -/
def Settings.Foreign (s : Settings) (c? : Option UInt8) : Prop := ∀ c ∈ c?, ∀ f, c ∉ (s.tokens f).opener

instance (s : Settings) : (c? : Option UInt8) → Decidable (s.Foreign c?)
  | none => isTrue nofun
  | some c => decidable_of_iff (c ∉ s.generation.opener ∧ c ∉ s.edit.opener)
      ⟨fun h _ hc f => by cases hc; cases f <;> [exact h.1; exact h.2], fun h => ⟨h c rfl .generation, h c rfl .edit⟩⟩

/-- **A document whose inline blocks are set apart** from the text around them and from one another. -/
structure Document.SetApart (s : Settings) (d : Document) : Prop where
  /-- In front of an outermost inline block there is a foreign byte, or nothing. -/
  front : ∀ b ∈ d.outermost, b.isInline → s.Foreign (d.source.take b.openSpan.start).getLast?
  /-- And so there is behind it. -/
  back : ∀ b ∈ d.outermost, b.isInline → s.Foreign (d.source.drop b.endSpan.stop).head?
  /-- It does not touch another one. -/
  apart : ∀ b ∈ d.outermost, ∀ c ∈ d.outermost, b.isInline → c.isInline → b.endSpan.stop ≠ c.openSpan.start

instance (s : Settings) (d : Document) : Decidable (d.SetApart s) :=
  decidable_of_iff
    ((∀ b ∈ d.outermost, b.isInline → s.Foreign (d.source.take b.openSpan.start).getLast?) ∧
      (∀ b ∈ d.outermost, b.isInline → s.Foreign (d.source.drop b.endSpan.stop).head?) ∧
      ∀ b ∈ d.outermost, ∀ c ∈ d.outermost, b.isInline → c.isInline → b.endSpan.stop ≠ c.openSpan.start)
    ⟨fun h => ⟨h.1, h.2.1, h.2.2⟩, fun h => ⟨h.front, h.back, h.apart⟩⟩

/-! ## The output of one text -/

/-- A stretch ends with the byte that the text ends with there. -/
theorem Text.getLast?_extract {t : Text} {i j : Nat} (hij : i ≤ j) {c : UInt8} (hc : c ∈ (t.extract i j).getLast?) :
    c ∈ (t.take j).getLast? := by
  have hne : t.extract i j ≠ [] := by
    rintro hnil
    rw [hnil] at hc
    cases hc
  rwa [← Text.take_append_extract t hij, List.getLast?_append_of_ne_nil _ hne]

/-- A text with replaced stretches begins with the byte that was there, if it is not replaced. -/
theorem Text.head?_patch {t : Text} {offset : Nat} {spans : List (Span × Text)}
    (h : ∀ p ∈ spans.head?, offset < p.1.start ∧ p.1.start ≤ t.length) :
    (t.patch offset spans).head? = (t.drop offset).head? := by
  cases spans with
  | nil => rfl
  | cons p spans =>
    obtain ⟨hlt, hle⟩ := h p rfl
    obtain ⟨c, rest, hdrop⟩ := List.exists_cons_of_ne_nil (List.ne_nil_of_length_pos
      (by rw [List.length_drop]; omega : 0 < (t.drop offset).length))
    rw [Text.patch, List.extract_eq_take_drop, hdrop, show p.1.start - offset = p.1.start - offset - 1 + 1 by omega]
    rfl

/-- Lines that are written end with a line feed. -/
theorem Block.getLast?_rewritten {b : Block} {padding : Text} {x? : Option Text} (hlines : b.isInline = false) :
    ∀ c ∈ (b.rewritten padding x?).getLast?, c = newline := by
  unfold rewritten
  rw [hlines, if_neg Bool.false_ne_true]
  cases x? <;> simp

namespace Document

variable {s : Settings} {t : Text} {d : Document} {b c : Block}

/-- Where there are no markers, there is nothing to set apart. -/
theorem setApart_of_plain (hd : parse s t = .ok d) (ht : t.Plain s) : d.SetApart s := by
  have husable := usable_of_parse hd
  rw [Run.parse_of_plain husable ht] at hd
  obtain rfl := Except.ok.inj hd
  exact ⟨by simp [outermost, blocks], by simp [outermost, blocks], by simp [outermost, blocks]⟩

/-- A line feed is foreign to openers without blanks. -/
theorem foreign_newline (hsolid : ∀ f, Text.Solid (s.tokens f).opener) : s.Foreign (some newline) :=
  fun _ hc f => Option.some.inj hc ▸ (hsolid f).newline_notMem

/-- **In front of every outermost block** there is a foreign byte, or nothing. -/
theorem SetApart.foreign_front (h : d.SetApart s) (hd : parse s t = .ok d)
    (hsolid : ∀ f, Text.Solid (s.tokens f).opener) (hb : b ∈ d.outermost) :
    s.Foreign (t.take b.openSpan.start).getLast? := by
  cases hinline : b.isInline with
  | true =>
    have := h.front b hb hinline
    rwa [source_of_parse hd] at this
  | false =>
    have hstands := stands_of_mem_blocks hd b (mem_blocks_of_outermost hb)
    rw [(hstands.spans_eq hinline).1]
    rcases hstands.opening.whole_take with hnil | hnewline
    · rw [hnil]
      exact nofun
    · rw [hnewline]
      exact foreign_newline hsolid

/-- **An inline block touches no block behind it.** Before one of whole lines a line ends. -/
theorem SetApart.lt_of_before (h : d.SetApart s) (hd : parse s t = .ok d) (hb : b ∈ d.outermost)
    (hc : c ∈ d.outermost) (hinline : b.isInline) (hbefore : Mark.Before t (.ending b) (.opening c)) :
    b.endSpan.stop < c.openSpan.start := by
  have hstands := stands_of_mem_blocks hd b (mem_blocks_of_outermost hb)
  have hstands' := stands_of_mem_blocks hd c (mem_blocks_of_outermost hc)
  cases hcinline : c.isInline with
  | true =>
    have hle := Block.spans_disjoint hstands.formed hstands'.formed hstands.before.ordered hstands'.before.ordered
      hstands.ending hstands'.opening hbefore
    exact lt_of_le_of_ne hle (h.apart b hb c hc hinline hcinline)
  | false =>
    rw [(hstands.inline_spans hinline).2.2.2.2, (hstands'.spans_eq hcinline).1]
    have hnewline := hbefore.newline (.inr hcinline)
    have hmem := (Text.lineStop_of_mem hnewline).2
    refine lt_of_lt_of_le ?_ (hstands'.opening.lineStop_le hnewline)
    by_contra hle
    have hle : Text.lineStop t (Mark.ending b).marker.closeEnd ≤ (Mark.ending b).marker.closeEnd :=
      Nat.le_of_not_lt hle
    rw [List.extract_eq_take_drop, Nat.sub_eq_zero_of_le hle] at hmem
    cases hmem

/-- **The text in front of an outermost block is severed from what is written there.** -/
theorem SetApart.severed_front (h : d.SetApart s) (hd : parse s t = .ok d)
    (hsolid : ∀ f, Text.Solid (s.tokens f).opener) (hb : b ∈ d.outermost) {offset : Nat}
    (hoffset : offset ≤ b.openSpan.start) (f : Family) (y : Text) :
    Severed (s.tokens f).opener (t.extract offset b.openSpan.start) y :=
  Text.severed_of_getLast? (fun c hc =>
    h.foreign_front hd hsolid hb c (Text.getLast?_extract hoffset hc) f) y

/-- **What is written for an outermost block is severed from the text behind it**, whatever is written for the
blocks there. An inline block is followed by the byte that follows it in the text, which no block touches. -/
theorem SetApart.severed_back (h : d.SetApart s) (hd : parse s t = .ok d)
    (hsolid : ∀ f, Text.Solid (s.tokens f).opener) (hb : b ∈ d.outermost) {bs : List Block} {cs : List (Option Text)}
    (hlength : cs.length = bs.length)
    (hbehind : b.isInline → ∀ c ∈ bs, b.endSpan.stop < c.openSpan.start ∧ c.openSpan.start ≤ t.length)
    (x? : Option Text) (f : Family) :
    Severed (s.tokens f).opener (b.rewritten [] x?)
      (t.patch b.endSpan.stop (List.zipWith (Block.patched true) bs cs)) := by
  cases hinline : b.isInline with
  | false =>
    exact Text.severed_of_getLast? (fun c hc =>
      foreign_newline hsolid c (Block.getLast?_rewritten hinline c hc ▸ rfl) f) _
  | true =>
    refine Text.severed_of_head? (fun c hc => ?_) _
    rw [Text.head?_patch, ← source_of_parse hd] at hc
    · exact h.back b hb hinline c hc f
    · cases bs with
      | nil => simp
      | cons c bs =>
        obtain ⟨y?, cs, rfl⟩ := List.exists_cons_of_length_eq_add_one hlength
        rintro p ⟨⟩
        exact hbehind hinline c (by simp)

/-- **What is written with the markers removed is plain** if all contents are, from an offset between two blocks on. -/
theorem plain_patch (hd : parse s t = .ok d) (hsolid : ∀ f, Text.Solid (s.tokens f).opener) (hset : d.SetApart s)
    (done : List Block) {bs : List Block} {offset : Nat} {cs : List (Option Text)} (hsplit : d.outermost = done ++ bs)
    (hdone : ∀ b ∈ done, b.endSpan.stop ≤ offset) (hbs : ∀ b ∈ bs, offset ≤ b.openSpan.start)
    (hoffset : offset ≤ t.length) (hlength : cs.length = bs.length) (hcs : ∀ x? ∈ cs, ∀ x ∈ x?, x.Plain s) :
    (t.patch offset (List.zipWith (Block.patched true) bs cs)).Plain s := by
  have husable := usable_of_parse hd
  have houter := outermost_of_parse hd
  obtain ⟨hspans, hordered⟩ := spans_ordered hd 1
  have hordered : d.outermost.Pairwise fun b c => b.endSpan.stop ≤ c.openSpan.start := hordered
  have hbefore : d.outermost.Pairwise fun b c => Mark.Before t (.ending b) (.opening c) :=
    houter.nested.pairwise_depth (pairwise_before hd).1 1
  induction bs generalizing done offset cs with
  | nil =>
    have hrest := plain_extract hd hoffset le_rfl fun b hb => .inl (hdone b (by simpa [hsplit] using hb))
    rw [List.extract_eq_take_drop, ← List.length_drop, List.take_length] at hrest
    exact hrest
  | cons b bs ih =>
    obtain ⟨x?, cs, rfl⟩ := List.exists_cons_of_length_eq_add_one hlength
    obtain ⟨hx, hcs⟩ := List.forall_mem_cons.1 hcs
    obtain ⟨hfirst, -⟩ := List.forall_mem_cons.1 hbs
    have hmem : ∀ c ∈ b :: bs, c ∈ d.outermost := fun c hc => by simpa [hsplit] using .inr (by simpa using hc)
    have hb := hmem b (by simp)
    obtain ⟨hspan₁, hspan₂, hspan₃, hspan₄⟩ := hspans b hb
    have hfollow := (List.pairwise_append.1 (hsplit ▸ hordered :
      (done ++ b :: bs).Pairwise fun b c => b.endSpan.stop ≤ c.openSpan.start)).2.1
    have hbehind : ∀ c ∈ bs, b.endSpan.stop ≤ c.openSpan.start := (List.pairwise_cons.1 hfollow).1
    have hapart : b.isInline → ∀ c ∈ bs, b.endSpan.stop < c.openSpan.start := fun hinline c hc =>
      hset.lt_of_before hd hb (hmem c (by simp [hc])) hinline ((List.pairwise_cons.1 (List.pairwise_append.1
        (hsplit ▸ hbefore)).2.1).1 c hc)
    have hdone' : ∀ a ∈ done ++ [b], a.endSpan.stop ≤ b.endSpan.stop := by
      simp only [List.mem_append, List.mem_singleton]
      rintro a (ha | rfl)
      · exact (hdone a ha).trans (by omega)
      · exact le_rfl
    have hgap := plain_extract hd hfirst (by omega) fun c hc => by
      rw [hsplit, List.mem_append, List.mem_cons] at hc
      rcases hc with hc | rfl | hc
      · exact .inl (hdone c hc)
      · exact .inr le_rfl
      · exact .inr (le_trans (by omega) (hbehind c hc))
    have hrewritten : (b.rewritten [] x?).Plain s := Block.plain_rewritten husable hsolid (by simp) hx
    have hrest := ih (done ++ [b]) (by simpa using hsplit) hdone' hbehind hspan₄ (by simpa using hlength) hcs
    rw [List.zipWith_cons_cons, Block.patched, if_pos rfl, Text.patch, List.append_assoc]
    refine hgap.append (hrewritten.append hrest ?_) fun f => hset.severed_front hd hsolid hb hfirst f _
    refine hset.severed_back hd hsolid hb (by simpa using hlength) (fun hinline c hc => ?_) x?
    have hbounds := hspans c (hmem c (by simp [hc]))
    exact ⟨hapart hinline c hc, by omega⟩

end Document

/-! ## The output of a generation -/

/-- A text that is regenerated without its markers is plain if its new contents are. -/
theorem Run.plain_result {run : Run} {t : Text} {d : Document} {cs : List (Option Text)}
    (hremove : run.removeMarkers = true) (hsolid : ∀ f, Text.Solid (run.settings.tokens f).opener)
    (hd : Document.parse run.settings t = .ok d) (hset : d.SetApart run.settings)
    (hlength : cs.length = d.outermost.length) (hcs : ∀ x? ∈ cs, ∀ x ∈ x?, x.Plain run.settings) :
    (run.result d cs).Plain run.settings := by
  rw [result, Document.source_of_parse hd, hremove]
  exact Document.plain_patch hd hsolid hset [] (by simp) (by simp) (by simp) (Nat.zero_le _) hlength hcs

/-- **All contents of a generation that removes markers are plain** if the inline blocks of all texts that are read
are set apart. -/
theorem Run.Regenerated.plain {run : Run} {pool : Pool} {source : Text} {bs : List Block} {cs : List (Option Text)}
    {claims : List Claim} (hremove : run.removeMarkers = true)
    (hsolid : ∀ f, Text.Solid (run.settings.tokens f).opener) (h : run.Regenerated pool source bs cs claims)
    (hreads : run.Throughout (fun _ d => d.SetApart run.settings) pool source bs) :
    ∀ x? ∈ cs, ∀ x ∈ x?, x.Plain run.settings := by
  induction h with
  | nil => simp
  | bare _ _ ih => simpa using ih (Throughout.cons_iff.1 hreads).2
  | @filled pool source u b bs d cs cs' inner claims hyield hd hinner _ _ ihInner ihRest =>
    obtain ⟨hhere, hbehind⟩ := Throughout.cons_iff.1 hreads
    obtain ⟨hset, hinside⟩ := (Throughout.singleton_iff hyield hd).1 hhere
    refine List.forall_mem_cons.2 ⟨fun x hx => ?_, ihRest hbehind⟩
    have hresult := run.plain_result hremove hsolid hd hset hinner.length_eq (ihInner hinside)
    unfold settled at hx
    split at hx
    · cases hx
      exact fun _ => trivial
    · unfold finish at hx
      split at hx
      · cases hx
      · cases hx
        exact hresult.dropFinalNewline

namespace Document

variable {s : Settings} {t o : Text} {d : Document} {edits : Edits} {supplied : Supplied} {renderer : Renderer}
  {context : Context}

/-- **Output without markers is read without markers.** Openers hold no blanks, and the inline blocks of the document
and of every text that is read for a block are set apart. Then there is no marker in the output of a generation that
removes the markers, and it is read as it is. Any edits may be at hand, altered or from outside. -/
theorem parse_of_generate_removed (hsolid : ∀ f, Text.Solid (s.tokens f).opener) (hd : parse s t = .ok d)
    (hset : d.SetApart s)
    (hreads : (Run.ofRenderer renderer context s true supplied.overrides).Throughout (fun _ e => e.SetApart s)
      [edits.union supplied.recovered] t d.outermost)
    (h : generate renderer context s .directive true { d with edits } supplied = .ok o) :
    parse s o = .ok { source := o, marks := [], edits := [] } := by
  obtain ⟨husable, -⟩ := parse_eq_ok_iff.1 hd
  obtain ⟨claimed, hrun, -⟩ := generate_directive_eq_ok_iff.1 h
  obtain ⟨cs, claims, htree, -, rfl, -⟩ := Run.regenerated_of_outermost (d := d) hd hrun
  exact Run.parse_of_plain husable (Run.plain_result rfl hsolid hd hset htree.length_eq (htree.plain rfl hsolid hreads))

/-- An inline block whose header is rendered to a text with another one. -/
def embeddingText : Text := "x = [[[ g ]]] 0 [[[ end ]]];\n"

/-- The document of that text. -/
def embedding : Document :=
  ((parse .standard embeddingText).toOption).getD { source := [], marks := [], edits := [] }

/-- What the header is rendered to. -/
def embedded : Document :=
  ((parse .standard "([[[ a ]]] [[[ end ]]])").toOption).getD { source := [], marks := [], edits := [] }

/-- Brackets and a semicolon may stand next to the blocks. -/
theorem parse_of_generate_removed_embedding :
    generate (hosted "([[[ a ]]] [[[ end ]]])") [] .standard .directive true embedding {}
        = .ok ("x = (a);\n" : Text) ∧
      parse .standard "x = (a);\n" = .ok { source := ("x = (a);\n" : Text), marks := [], edits := [] } := by
  have hd : parse .standard embeddingText = .ok embedding := by rfl
  have hembedded : parse .standard "([[[ a ]]] [[[ end ]]])" = .ok embedded := by rfl
  have ho : generate (hosted "([[[ a ]]] [[[ end ]]])") [] .standard .directive true embedding {}
      = .ok ("x = (a);\n" : Text) := by decide +kernel
  refine ⟨ho, parse_of_generate_removed Settings.solid_standard.opener hd (by decide +kernel) ?_ ho⟩
  refine Run.Throughout.iff_forall.2 fun b hb u e hyield he => ?_
  have hg : ∀ b ∈ embedding.outermost, b.opening.family = .generation ∧ b.opening.header = "g" := by
    decide +kernel
  obtain ⟨hfamily, hheader⟩ := hg b hb
  have hu := hyield.render_eq hfamily
  rw [hheader] at hu
  obtain rfl := Except.ok.inj hu
  obtain rfl := Except.ok.inj (hembedded.symm.trans he)
  refine ⟨by decide +kernel, .of_plain fun c hc v f hyield hf => ?_⟩
  have ha : ∀ c ∈ embedded.outermost, c.opening.family = .generation ∧ c.opening.header = "a" := by decide +kernel
  obtain ⟨hfamily, hheader⟩ := ha c hc
  have hv := hyield.render_eq hfamily
  have hplain : v.Plain .standard := by
    obtain ⟨husable, -⟩ := parse_eq_ok_iff.1 hf
    refine (Text.plain_iff husable).2 fun f => ?_
    rw [hheader] at hv
    cases hv
    cases f <;> decide
  exact ⟨hplain, setApart_of_plain hf hplain⟩

/-- An inline edit with two bytes of an opener in front of it, and a third one at the beginning of its body. -/
def assembledText : Text := "[[<<[ a ]>> [ x ]]] <<[ end ]>>"

/-- **Markers may be left in output without markers**: where the marker of the edit is removed, the text in front of it
and the body make up an opener. -/
theorem not_parse_of_generate_removed :
    ¬ ∀ (s : Settings) (t : Text) (d : Document) (renderer : Renderer) (context : Context) (edits : Edits)
      (supplied : Supplied) (o : Text), parse s t = .ok d →
      generate renderer context s .directive true { d with edits } supplied = .ok o →
      ∃ d', parse s o = .ok d' ∧ d'.marks = [] := by
  intro h
  obtain ⟨d, hd, hgenerate⟩ : ∃ d, parse .standard assembledText = .ok d ∧
      generate (fun header _ => .ok header) [] .standard .directive true { d with edits := d.edits } {}
        = .ok ("[[[ x ]]]" : Text) := ⟨_, rfl, by decide +kernel⟩
  obtain ⟨d', hd', -⟩ := h _ _ d _ _ _ _ _ hd hgenerate
  have hfails : (parse .standard "[[[ x ]]]").toOption.isNone = true := by decide +kernel
  rw [hd'] at hfails
  cases hfails

end Document

end Regen
