import Regen.Proofs.Carrying
import Regen.Proofs.Rereading
import Regen.Proofs.Window

/-!
# Texts in which whole lines are exchanged

Some lines of a text are exchanged for others, and neither hold an opener. If no marker reaches into these
lines, the text is read as it was before. Its lexemes in front of the lines and behind them are the same,
since no opener runs over the end of a line. And its markers are the same, but for the offsets of those
behind the lines (`Marker.moved`). So they are paired as before, each block being made up anew of its moved
markers (`Block.remade`), and the text is a document again, with the marks remade
(`Document.exists_exchanged`).
-/

namespace Regen

open Lexeme (ofText textOf text read? markersFrom Lexed)
open Text (newline shift)
open Pairing (onSameLine)

/-! ## Whole lines -/

/-- Whole lines behind whole lines are whole lines. -/
theorem Text.Whole.append {t u : Text} (ht : t.Whole) (hu : u.Whole) : Whole (t ++ u) := by
  obtain rfl | hu := hu
  · rwa [List.append_nil]
  · have hne : u ≠ [] := by
      rintro rfl
      cases hu
    exact .inr (by rwa [List.getLast?_append_of_ne_nil _ hne])

/-- The lines at the end of whole lines are whole. -/
theorem Text.Whole.of_append_right {t u : Text} (h : Whole (t ++ u)) : Whole u := by
  by_cases hu : u = []
  · exact .inl hu
  · rw [Whole, List.getLast?_append_of_ne_nil _ hu] at h
    exact .inr (h.resolve_left fun h => hu (List.append_eq_nil_iff.1 h).2)

/-- Nothing stands on the last line behind whole lines. -/
theorem Text.Whole.lastLine_eq {t : Text} (ht : t.Whole) : lastLine t = [] := by
  obtain rfl | ht := ht
  · rfl
  · obtain ⟨u, rfl⟩ := List.getLast?_eq_some_iff.1 ht
    exact lastLine_append_newline u List.not_mem_nil

/-- **The line of an offset ends with the first line feed behind it**, if there is one. -/
theorem Text.lineStop_of_mem {t : Text} {i j : Nat} (h : newline ∈ t.extract i j) :
    (t.take (lineStop t i)).getLast? = some newline ∧ newline ∈ t.extract i (lineStop t i) := by
  rw [List.extract_eq_take_drop] at h
  have hmem := List.mem_of_mem_take h
  have hi : i ≤ t.length := by
    by_contra hlt
    rw [List.drop_eq_nil_of_le (by omega)] at hmem
    cases hmem
  obtain ⟨u, v, hdrop, hu⟩ := (notMem_or_eq_newline (t.drop i)).resolve_left (not_not.2 hmem)
  obtain ⟨x, rfl, rfl⟩ : ∃ x, t = x ++ u ++ newline :: v ∧ x.length = i :=
    ⟨t.take i, by rw [List.append_assoc, ← hdrop, List.take_append_drop], by rw [List.length_take]; omega⟩
  have hline := extract_append x (u ++ [newline]) v
  rw [lineStop_append_newline x v hu, List.append_cons, List.append_assoc x u,
    show (x ++ u).length + 1 = x.length + (u ++ [newline]).length by simp; omega]
  refine ⟨?_, ?_⟩
  · rw [← List.length_append, List.take_left]
    simp
  · rw [hline]
    simp

/-! ## Lexemes -/

namespace Lexeme

variable {s : Settings}

/-- Lexemes can be cut wherever no marker is. -/
theorem exists_cut_at {before after front rest : Text} {ls : List Lexeme} {ms : List Marker}
    (hread : markersFrom s before ls after = some ms) (htext : textOf s ls = front ++ rest)
    (hmarkers : ∀ m ∈ ms, m.closeEnd ≤ (before ++ front).length ∨ (before ++ front).length ≤ m.openAt) :
    ∃ ls₁ ls₂, ls = ls₁ ++ ls₂ ∧ textOf s ls₁ = front ∧ textOf s ls₂ = rest := by
  induction ls generalizing before front ms with
  | nil =>
    obtain ⟨rfl, rfl⟩ := List.append_eq_nil_iff.1 htext.symm
    exact ⟨[], [], rfl, rfl, rfl⟩
  | cons l ls ih =>
    cases front with
    | nil => exact ⟨[], l :: ls, rfl, rfl, htext⟩
    | cons c front =>
      cases l with
      | byte b =>
        have hcons : b :: textOf s ls = c :: (front ++ rest) := htext
        obtain ⟨rfl, hfront⟩ := List.cons_eq_cons.1 hcons
        obtain ⟨ls₁, ls₂, rfl, h₁, h₂⟩ := @ih (before ++ [b]) front ms hread hfront (by simpa using hmarkers)
        exact ⟨.byte b :: ls₁, ls₂, rfl, by simp [h₁], h₂⟩
      | marker f raw =>
        obtain ⟨m, ms', hm, hms', rfl⟩ := markersFrom_marker.1 hread
        obtain ⟨hmarker, hmarkers⟩ := List.forall_mem_cons.1 hmarkers
        obtain ⟨hopenAt, hcloseEnd⟩ := closeEnd_of_read? hm
        rw [hopenAt, hcloseEnd] at hmarker
        have hle : (text s (.marker f raw)).length ≤ (c :: front).length := by
          simp only [List.length_append, List.length_cons] at hmarker ⊢
          omega
        obtain ⟨front', hfront⟩ : text s (.marker f raw) <+: c :: front :=
          List.prefix_of_prefix_length_le (List.prefix_append _ (textOf s ls))
            (by rw [← textOf_cons, htext]; exact List.prefix_append _ rest) hle
        rw [textOf_cons, ← hfront, List.append_assoc] at htext
        obtain ⟨ls₁, ls₂, rfl, h₁, h₂⟩ := ih hms' (List.append_cancel_left htext)
          (by rw [List.append_assoc, hfront]; exact hmarkers)
        exact ⟨.marker f raw :: ls₁, ls₂, rfl, by rw [textOf_cons, h₁, hfront], h₂⟩

/-- Lexemes of a text without openers are bytes. -/
theorem eq_ofText_of_plain {ls : List Lexeme} (h : ∀ f, ¬ (s.tokens f).opener <:+: textOf s ls) :
    ls = ofText (textOf s ls) := by
  induction ls with
  | nil => rfl
  | cons l ls ih =>
    cases l with
    | byte b => exact congrArg (.byte b :: ·) (ih fun f hf => h f (hf.trans (List.suffix_cons b _).isInfix))
    | marker f raw => exact absurd ⟨[], raw ++ (s.tokens f).closer ++ textOf s ls, by simp [text]⟩ (h f)

/-- **Markers behind exchanged lines** are read as before, but for their offsets. -/
theorem markersFrom_shifted {before before' y after : Text} {ls : List Lexeme} {ms : List Marker}
    (hline : Text.lastLine before' = Text.lastLine before)
    (h : markersFrom s (before ++ y) ls after = some ms) :
    markersFrom s (before' ++ y) ls after
      = some (ms.map (Marker.shifted before.length before'.length)) := by
  induction ls generalizing y ms with
  | nil =>
    cases h
    rfl
  | cons l ls ih =>
    cases l with
    | byte b =>
      rw [markersFrom, List.append_assoc] at h ⊢
      exact ih h
    | marker f raw =>
      obtain ⟨m, ms', hm, hms', rfl⟩ := markersFrom_marker.1 h
      rw [List.append_assoc] at hms'
      refine markersFrom_marker.2 ⟨m.shifted before.length before'.length, _, ?_,
        (List.append_assoc before' y _).symm ▸ ih hms', rfl⟩
      have hlast : Text.lastLine (before' ++ y) = Text.lastLine (before ++ y) := by
        by_cases hy : newline ∈ y
        · rw [Text.lastLine_append_of_mem _ hy, Text.lastLine_append_of_mem _ hy]
        · rw [Text.lastLine_append_of_notMem _ hy, Text.lastLine_append_of_notMem _ hy, hline]
      obtain ⟨lines, hlines, rfl⟩ := Option.map_eq_some_iff.1 hm
      refine Option.map_eq_some_iff.2 ⟨lines, by rw [hlast, hlines], ?_⟩
      simp only [Marker.shifted, hlast, shift, List.length_append]
      congr 1 <;> omega

end Lexeme

/-! ## Remade marks -/

/-- The mark of another block. -/
def Mark.map (f : Block → Block) : Mark → Mark
  | .opening b => .opening (f b)
  | .ending b => .ending (f b)

/-- The blocks of other marks are the other blocks. -/
theorem Mark.blocks_map (f : Block → Block) (marks : List Mark) :
    blocks (marks.map (Mark.map f)) = (blocks marks).map f := by
  induction marks with
  | nil => rfl
  | cons mark marks ih => cases mark <;> simp [Mark.map, ih]

/-- The edit blocks of other marks are the other edit blocks, if families stay. -/
theorem Document.editBlocks_map {f : Block → Block} (hf : ∀ b, (f b).family = b.family)
    (marks : List Mark) : editBlocks (marks.map (Mark.map f)) = (editBlocks marks).map f := by
  rw [editBlocks, editBlocks, ← Mark.blocks, ← Mark.blocks, Mark.blocks_map, List.filter_map]
  refine congrArg (List.map f) (List.filter_congr fun b _ => ?_)
  simp [hf]

/-- The outermost blocks of other marks are the other outermost blocks, if depths stay. -/
theorem Mark.outermost_map {f : Block → Block} (hf : ∀ b, (f b).depth = b.depth) (marks : List Mark) :
    outermost (marks.map (Mark.map f)) = (outermost marks).map f := by
  rw [outermost, outermost, Mark.blocks_map, List.filter_map]
  refine congrArg (List.map f) (List.filter_congr fun b _ => ?_)
  simp [hf]

/-- A block made up anew of its markers, in a text into which these are moved. -/
def Block.remade (t : Text) (move : Marker → Marker) (b : Block) : Block :=
  .ofMarkers t (move b.opening) (move b.ending) b.depth b.isInline

section

variable {t t' : Text} {move : Marker → Marker} {P : Marker → Prop}

/-- A remade block is of the same family. -/
theorem Block.family_remade (halike : ∀ m : Marker, m.Alike (move m)) (b : Block) :
    (b.remade t' move).family = b.family := by
  rw [family, remade, ofMarkers_opening, (halike _).family, family]

/-- It has the same name. -/
theorem Block.name_remade (halike : ∀ m : Marker, m.Alike (move m)) (b : Block) :
    (b.remade t' move).name = b.name := by
  rw [name, remade, ofMarkers_opening, (halike _).name, name]

/-- The markers of remade marks are the moved ones. -/
theorem Mark.map_marker_remade (marks : List Mark) :
    (marks.map (Mark.map (Block.remade t' move))).map Mark.marker = (marks.map Mark.marker).map move := by
  rw [List.map_map, List.map_map]
  refine List.map_congr_left fun mark _ => ?_
  cases mark <;> simp [Mark.map, Mark.marker, Block.remade]

/-- What holds of all markers inside a block, and of the one in front of them, holds of the last one. -/
theorem Inside.last_of_forall {family : Family} {isInline : Bool} {depth : Nat} {p q : Marker}
    {marks : List Mark} (h : Inside t family isInline depth p marks q) (hp : P p)
    (hmarks : ∀ m ∈ marks, P m.marker) : P q := by
  rcases h.last_mem with rfl | hq
  · exact hp
  · obtain ⟨mark, hmark, rfl⟩ := List.mem_map.1 hq
    exact hmarks mark hmark

/-- **Marks inside a block are remade** if the markers are moved to alike ones, and share lines as before. -/
theorem Inside.remade (halike : ∀ m : Marker, m.Alike (move m))
    (hline : ∀ p m, P p → P m → onSameLine t' (move p) (move m) = onSameLine t p m) {family : Family}
    {isInline : Bool} {depth : Nat} {p q : Marker} {marks : List Mark}
    (h : Inside t family isInline depth p marks q) (hp : P p) (hmarks : ∀ m ∈ marks, P m.marker) :
    Inside t' family isInline depth (move p) (marks.map (Mark.map (Block.remade t' move))) (move q) := by
  induction h with
  | nil => exact .nil
  | @block family isInline depth p q r b inner rest hopens hends hformed hline' hinline hedit hinner hclose
      hclash hrest ihInner ihRest =>
    simp only [List.forall_mem_cons, List.forall_mem_append, Mark.marker] at hmarks
    obtain ⟨hopening, hinnerP, hending, hrestP⟩ := hmarks
    have hdepth : b.depth = depth := by rw [hformed, Block.ofMarkers_depth]
    have hq := hinner.last_of_forall hopening hinnerP
    have hencloses := Block.encloses_ofMarkers ((halike b.opening).isEnd.trans hopens)
      ((halike b.ending).isEnd.trans hends)
      (by rw [(halike b.opening).family]; exact ihInner hopening hinnerP)
      ((hline q _ hq hending).trans hclose) (((halike q).clashes (halike _)).trans hclash)
    rw [List.map_cons, List.map_append, List.map_cons, Mark.map, Mark.map, Block.remade, hdepth]
    exact Block.inside_ofMarkers hencloses ((hline p _ hp hopening).trans hline') hinline
      (by rw [(halike _).family]; exact hedit) (ihRest hending hrestP)

/-- **Outermost marks are remade** likewise. -/
theorem Outermost.remade (halike : ∀ m : Marker, m.Alike (move m))
    (hline : ∀ p m, P p → P m → onSameLine t' (move p) (move m) = onSameLine t p m)
    {previous? : Option Block} {marks : List Mark} (h : Outermost t previous? marks)
    (hprevious : ∀ a ∈ previous?, P a.ending) (hmarks : ∀ m ∈ marks, P m.marker) :
    Outermost t' (previous?.map (Block.remade t' move)) (marks.map (Mark.map (Block.remade t' move))) := by
  induction h with
  | nil => exact .nil
  | @block previous? b inner rest henclosed hfits hrest ih =>
    simp only [List.forall_mem_cons, List.forall_mem_append, Mark.marker] at hmarks
    obtain ⟨hopening, hinnerP, hending, hrestP⟩ := hmarks
    obtain ⟨q, hinside, hclose, hclash⟩ := henclosed.layout
    have hdepth : b.depth = 1 := by rw [henclosed.formed, Block.ofMarkers_depth]
    have hq := hinside.last_of_forall hopening hinnerP
    have hencloses := Block.encloses_ofMarkers ((halike b.opening).isEnd.trans henclosed.opens)
      ((halike b.ending).isEnd.trans henclosed.ends)
      (by rw [(halike b.opening).family]; exact hinside.remade halike hline hopening hinnerP)
      ((hline q _ hq hending).trans hclose) (((halike q).clashes (halike _)).trans hclash)
    have hrest' := ih (fun _ ha => Option.some.inj ha ▸ hending) hrestP
    rw [List.map_cons, List.map_append, List.map_cons, Mark.map, Mark.map]
    rw [Option.map_some] at hrest'
    have hremade : b.remade t' move = .ofMarkers t' (move b.opening) (move b.ending) 1 b.isInline := by
      rw [Block.remade, hdepth]
    rw [hremade] at hrest' ⊢
    refine .block hencloses ?_ hrest'
    intro a' ha' hsame
    obtain ⟨a, rfl, rfl⟩ := Option.map_eq_some_iff.1 ha'
    rw [Block.remade, Block.ofMarkers_ending, Block.ofMarkers_opening,
      hline _ _ (hprevious a rfl) hopening] at hsame
    simpa [Block.remade] using hfits a rfl hsame

end

/-! ## Moved markers -/

/-- Where a marker comes to stand when the lines `new` come in the place of `old`, behind `front`. -/
def Marker.moved (front old new : Text) (m : Marker) : Marker :=
  if m.openAt < front.length then m else m.shifted (front ++ old).length (front ++ new).length

/-- **A marker outside of some lines**: it ends in front of them, and of the end of the line there, or it
stands behind them. -/
structure Marker.Outside (front old back : Text) (m : Marker) : Prop where
  /-- Something is written for it. -/
  width : m.openAt < m.closeEnd
  /-- It does not reach into the lines. -/
  outside : m.closeEnd < front.length ∨ (front ++ old).length ≤ m.openAt
  /-- It ends in the text. -/
  bound : m.closeEnd ≤ (front ++ old ++ back).length

section

variable {front old new back : Text} {p m : Marker}

/-- A moved marker reads like the marker. -/
theorem Marker.alike_moved (front old new : Text) (m : Marker) : m.Alike (m.moved front old new) := by
  unfold moved
  split <;> exact ⟨rfl, rfl, rfl⟩

/-- It has the same lead. -/
@[simp] theorem Marker.lead_moved (front old new : Text) (m : Marker) :
    (m.moved front old new).lead = m.lead := by
  unfold moved
  split <;> rfl

/-- A marker in front of the lines stays where it is. -/
theorem Marker.moved_of_lt (new : Text) (h : m.Outside front old back) (hm : m.closeEnd < front.length) :
    m.moved front old new = m := if_pos (h.width.trans hm)

/-- A marker behind the lines is shifted. -/
theorem Marker.moved_of_le (new : Text) (hm : (front ++ old).length ≤ m.openAt) :
    m.moved front old new = m.shifted (front ++ old).length (front ++ new).length := by
  refine if_neg (Nat.not_lt.2 (le_trans ?_ hm))
  rw [List.length_append]
  exact Nat.le_add_right ..

/-- **Markers outside of the lines share lines as before**, since the one in front of the lines is never
on one line with the one behind them. -/
theorem Pairing.onSameLine_moved (hfront : front.getLast? = some newline) (new back : Text)
    (hp : p.Outside front old back) (hm : m.Outside front old back) :
    onSameLine (front ++ new ++ back) (p.moved front old new) (m.moved front old new)
      = onSameLine (front ++ old ++ back) p m := by
  have hle : front.length ≤ (front ++ old).length := by simp
  rcases hp.outside with hpout | hpout <;> rcases hm.outside with hmout | hmout
  · rw [Marker.moved_of_lt new hp hpout, Marker.moved_of_lt new hm hmout]
    have h := onSameLine_shifted [] (old ++ back) (new ++ back)
      (show ([] : Text).length ≤ p.closeEnd from Nat.zero_le _)
      (show m.openAt ≤ ([] ++ front).length from (hm.width.trans hmout).le)
    simpa using h
  · rw [Marker.moved_of_lt new hp hpout, Marker.moved_of_le new hmout]
    obtain ⟨line, rfl⟩ := List.getLast?_eq_some_iff.1 hfront
    rw [List.length_append, List.length_singleton] at hpout
    have hfalse : ∀ (lines : Text) {m : Marker}, (line ++ [newline]).length ≤ m.openAt →
        onSameLine (line ++ [newline] ++ lines ++ back) p m = false := fun lines m hm => by
      rw [List.append_assoc _ lines]
      exact onSameLine_eq_false _ (by simp) (Nat.le_of_lt_succ hpout) hm
    rw [hfalse old (hle.trans hmout), hfalse new]
    simp only [Marker.shifted, shift, List.length_append]
    omega
  · -- nothing is between markers in the wrong order
    have hempty : ∀ (t : Text) {p m : Marker}, m.openAt ≤ p.closeEnd → onSameLine t p m = true := by
      intro t p m h
      rw [onSameLine, List.extract_eq_take_drop, Nat.sub_eq_zero_of_le h]
      rfl
    have hpwidth := hp.width
    have hmwidth := hm.width
    rw [Marker.moved_of_le new hpout, Marker.moved_of_lt new hm hmout, hempty, hempty]
    · omega
    · simp only [Marker.shifted, shift, List.length_append] at hpout ⊢
      omega
  · rw [Marker.moved_of_le new hpout, Marker.moved_of_le new hmout]
    have h := onSameLine_shifted (front ++ new) [] [] (hpout.trans hp.width.le)
      (hm.width.le.trans hm.bound)
    simpa using h

/-! ## Exchanged lines -/

section

variable {s : Settings} {ls : List Lexeme} {ms : List Marker} {after : Text}

/-- **Lexemes are cut around lines without openers** if no marker reaches into them. -/
theorem Lexeme.exists_cut_around (hread : markersFrom s [] ls [] = some ms)
    (htext : textOf s ls = front ++ old ++ back) (hplain : ∀ f, ¬ (s.tokens f).opener <:+: old)
    (hout : ∀ m ∈ ms, m.Outside front old back) :
    ∃ ls₁ ls₂ ms₁ ms₂, ls = ls₁ ++ (ofText old ++ ls₂) ∧ textOf s ls₁ = front ∧ textOf s ls₂ = back ∧
      markersFrom s [] ls₁ (old ++ back) = some ms₁ ∧ markersFrom s (front ++ old) ls₂ [] = some ms₂ ∧
      ms = ms₁ ++ ms₂ := by
  rw [List.append_assoc] at htext
  obtain ⟨ls₁, rest, rfl, rfl, hrest⟩ := exists_cut_at hread htext fun m hm => by
    have hout := (hout m hm).outside
    simp only [List.nil_append, List.length_append] at hout ⊢
    omega
  obtain ⟨ms₁, ms₂, hread₁, hread₂, rfl⟩ := markersFrom_append.1 hread
  obtain ⟨middle, ls₂, rfl, hmiddle, rfl⟩ := exists_cut_at hread₂ hrest fun m hm => by
    have hout := (hout m (by simp [hm])).outside
    simp only [List.nil_append, List.length_append] at hout ⊢
    omega
  obtain rfl : middle = ofText old := by
    rw [← hmiddle] at hplain ⊢
    exact eq_ofText_of_plain hplain
  rw [List.append_nil, hrest] at hread₁
  rw [markersFrom_ofText_append, List.nil_append] at hread₂
  exact ⟨ls₁, ls₂, ms₁, ms₂, rfl, rfl, rfl, hread₁, hread₂, rfl⟩

/-- Markers of lexemes in front of the lines stay where they are. -/
theorem Lexeme.map_moved_front (new : Text) (hread : markersFrom s [] ls after = some ms)
    (hout : ∀ m ∈ ms, m.Outside (textOf s ls) old back) :
    ms.map (Marker.moved (textOf s ls) old new) = ms := by
  refine (List.map_congr_left fun m hm => ?_).trans (List.map_id ms)
  have hend := ((stands_of_markersFrom hread).1 m hm).2.2
  refine Marker.moved_of_lt new (hout m hm) ((hout m hm).outside.resolve_right fun hle => ?_)
  have hwidth := (hout m hm).width
  simp only [List.nil_append, List.length_append] at hend hle
  omega

/-- Markers of lexemes behind the lines are read again with other lines in front of them, and are moved. -/
theorem Lexeme.markersFrom_moved_back (hfront : front.Whole) (hold : old.Whole) (hnew : new.Whole)
    (hread : markersFrom s (front ++ old) ls [] = some ms) :
    markersFrom s (front ++ new) ls [] = some (ms.map (Marker.moved front old new)) := by
  have hmoved : ms.map (Marker.moved front old new)
      = ms.map (Marker.shifted (front ++ old).length (front ++ new).length) :=
    List.map_congr_left fun m hm => Marker.moved_of_le new ((stands_of_markersFrom hread).1 m hm).2.1
  have hline : Text.lastLine (front ++ new) = Text.lastLine (front ++ old) := by
    rw [(hfront.append hnew).lastLine_eq, (hfront.append hold).lastLine_eq]
  have h := @markersFrom_shifted s _ _ [] [] ls ms hline
  rw [List.append_nil, List.append_nil] at h
  rw [hmoved]
  exact h hread

/-- **Lexemes with other lines among them**: they are lexemes again, with moved markers. -/
theorem Lexeme.exists_exchanged (husable : Document.Usable s) (hopener : ∀ f, newline ∉ (s.tokens f).opener)
    (hfront : front.Whole) (hold : old.Whole) (hnew : new.Whole)
    (hplain : ∀ f, ¬ (s.tokens f).opener <:+: old) (hplain' : ∀ f, ¬ (s.tokens f).opener <:+: new)
    (hlexed : Lexed s ls) (htext : textOf s ls = front ++ old ++ back)
    (hread : markersFrom s [] ls [] = some ms) (hout : ∀ m ∈ ms, m.Outside front old back) :
    ∃ ls', Lexed s ls' ∧ textOf s ls' = front ++ new ++ back ∧
      markersFrom s [] ls' [] = some (ms.map (Marker.moved front old new)) := by
  obtain ⟨ls₁, ls₂, ms₁, ms₂, rfl, rfl, rfl, hread₁, hread₂, rfl⟩ := exists_cut_around hread htext hplain hout
  have hlines : Lexed s (ofText new) := lexed_ofText_iff.2 ((Text.plain_iff husable).2 hplain')
  refine ⟨ls₁ ++ (ofText new ++ ls₂), ?_, by simp, markersFrom_append.2
    ⟨ms₁, ms₂.map (Marker.moved (textOf s ls₁) old new), ?_, ?_, ?_⟩⟩
  · -- no opener runs over the end of the lines, or of those in front of them
    refine hlexed.of_append_left.append_of_severed (fun f => hfront.severed (hopener f) _)
      (hlines.append_of_severed (fun f => ?_) hlexed.of_append_right.of_append_right)
    rw [textOf_ofText]
    exact hnew.severed (hopener f) _
  · rw [← hread₁]
    exact markersFrom_congr_after hopener husable.closer ..
  · rw [markersFrom_ofText_append, List.nil_append]
    exact markersFrom_moved_back hfront hold hnew hread₂
  · rw [List.map_append, map_moved_front new hread₁ fun m hm => hout m (by simp [hm])]

end

/-- **A text in which whole lines are exchanged is read again**, if neither the lines nor those that they are
exchanged for hold an opener, and no marker reaches into them. -/
theorem Document.exists_exchanged {s : Settings} (hopener : ∀ f, newline ∉ (s.tokens f).opener)
    (hfront : front.getLast? = some newline) (hold : old.Whole) (hnew : new.Whole)
    (hplain : ∀ f, ¬ (s.tokens f).opener <:+: old) (hplain' : ∀ f, ¬ (s.tokens f).opener <:+: new)
    {d : Document} (hd : parse s (front ++ old ++ back) = .ok d)
    (hmarkers : ∀ m ∈ d.marks, m.marker.Outside front old back) :
    ∃ d', parse s (front ++ new ++ back) = .ok d' ∧ d'.marks = d.marks.map
      (Mark.map (Block.remade (front ++ new ++ back) (Marker.moved front old new))) := by
  obtain ⟨husable, ⟨ls, hlexed, htext, hread⟩, houter, hnames, -, -⟩ := parse_eq_ok_iff.1 hd
  obtain ⟨ls', hlexed', htext', hread'⟩ := Lexeme.exists_exchanged husable hopener (.inr hfront) hold hnew
    hplain hplain' hlexed htext hread (List.forall_mem_map.2 hmarkers)
  have halike := Marker.alike_moved front old new
  have houter' := houter.remade halike
    (fun p m hp hm => Pairing.onSameLine_moved hfront new back hp hm) (by simp) hmarkers
  set move := Marker.moved front old new
  set remade := Block.remade (front ++ new ++ back) move
  refine ⟨⟨_, d.marks.map (Mark.map remade), (editBlocks (d.marks.map (Mark.map remade))).map
      ({ source := _, block := · })⟩,
    parse_eq_ok_iff.2 ⟨husable, ⟨ls', hlexed', htext', ?_⟩, houter', ?_, rfl, rfl⟩, rfl⟩
  · rwa [Mark.map_marker_remade]
  · rw [editBlocks_map (Block.family_remade halike), List.map_map]
    rwa [show Block.name ∘ remade = Block.name from funext (Block.name_remade halike)]

end

end Regen
