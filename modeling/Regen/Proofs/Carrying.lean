import Regen.Proofs.Hanging
import Regen.Proofs.Nesting

/-!
# Markers that are carried into another text

Whether markers can be paired depends on little: which of them are end markers, to which families they
belong, and which of them share a line with the one in front. So marks that are well arranged in one
text are so in every text into which their markers are carried with all this unchanged (`Carried`).
Blocks inside a block stay so at any depth (`Inside.carry`). Outermost blocks may become blocks inside
another one if they keep to its layout and are no edits directly inside an edit
(`Outermost.carry_inside`).

Markers are carried in this sense when the text they stand in is indented (`Lexeme.exists_carried`).
-/

namespace Regen

open Text (newline)
open Pairing (onSameLine clashes)

namespace Marker

/-- **Two markers are alike** if they read alike, wherever they stand. -/
structure Alike (m m' : Marker) : Prop where
  /-- They belong to one family. -/
  family : m'.family = m.family
  /-- They are written with the same tokens. -/
  tokens : m'.tokens = m.tokens
  /-- They have the same header. -/
  headerLines : m'.headerLines = m.headerLines

namespace Alike

variable {m m' : Marker}

theorem header (h : m.Alike m') : m'.header = m.header := by
  rw [Marker.header, Marker.header, h.headerLines]

theorem isEnd (h : m.Alike m') : m'.isEnd = m.isEnd := by
  rw [Marker.isEnd, Marker.isEnd, h.header, h.tokens]

theorem name (h : m.Alike m') : m'.name = m.name := by
  rw [Marker.name, Marker.name, h.header]

theorem headerEmpty (h : m.Alike m') : m'.headerEmpty = m.headerEmpty := by
  rw [Marker.headerEmpty, Marker.headerEmpty, h.headerLines]

/-- How far a body is indented depends on the lead and the tokens alone. -/
theorem bodyColumn (h : m.Alike m') (hlead : m'.lead = m.lead) : m'.bodyColumn = m.bodyColumn := by
  obtain ⟨_, k, lead, _, _, _⟩ := m
  obtain ⟨_, k', lead', _, _, _⟩ := m'
  obtain rfl : k' = k := h.tokens
  obtain rfl : lead' = lead := hlead
  rfl

/-- The margin depends on the lead and the tokens alone. -/
theorem bodyIndent (h : m.Alike m') (hlead : m'.lead = m.lead) : m'.bodyIndent = m.bodyIndent := by
  rw [Marker.bodyIndent, Marker.bodyIndent, h.bodyColumn hlead, Marker.margin, Marker.margin, hlead]

end Alike

@[refl] theorem Alike.refl (m : Marker) : m.Alike m := ⟨rfl, rfl, rfl⟩

theorem alike_behind (before : Text) (m : Marker) : m.Alike (m.behind before) := ⟨rfl, rfl, rfl⟩

/-- The names of the edits that these markers open. -/
def editNames (ms : List Marker) : List Text :=
  (ms.filter fun m => m.family == .edit && !m.isEnd).map name

@[simp] theorem editNames_nil : editNames [] = [] := rfl

@[simp] theorem editNames_append (ms ms' : List Marker) :
    editNames (ms ++ ms') = editNames ms ++ editNames ms' := by
  simp [editNames]

/-- Alike markers open an edit of the same name, if any. -/
theorem Alike.editNames {m m' : Marker} (h : m.Alike m') :
    Marker.editNames [m'] = Marker.editNames [m] := by
  simp only [Marker.editNames, List.filter_cons, h.family, h.isEnd]
  split <;> simp [h.name]

/-- An end marker opens no edit. -/
theorem editNames_of_isEnd {m : Marker} (h : m.isEnd = true) : editNames [m] = [] := by
  simp [editNames, h]

/-- The markers of a block open the edit that the block is, if it is one, and those inside it. -/
theorem editNames_block {b : Block} (hends : b.ending.isEnd = true) (inner rest : List Mark) :
    editNames ((Mark.opening b :: (inner ++ .ending b :: rest)).map Mark.marker)
      = editNames [b.opening] ++ editNames (inner.map Mark.marker)
        ++ editNames (rest.map Mark.marker) := by
  have hmarkers : (Mark.opening b :: (inner ++ .ending b :: rest)).map Mark.marker
      = [b.opening] ++ inner.map Mark.marker ++ ([b.ending] ++ rest.map Mark.marker) := by
    simp [Mark.marker]
  rw [hmarkers, editNames_append, editNames_append, editNames_append, editNames_of_isEnd hends,
    List.nil_append]

/-- **Markers carried from one text into another**: each is like its original, and a line ends in front
of it where one did. Nothing is said of the first one if nothing stands in front of it. -/
inductive Carried (t t' : Text) :
    (p? : Option Marker) → List Marker → (p' : Marker) → List Marker → Prop
  /-- No markers. -/
  | nil {p? : Option Marker} {p' : Marker} : Carried t t' p? [] p' []
  /-- A marker and those behind it. -/
  | cons {p? : Option Marker} {p' m m' : Marker} {ms ms' : List Marker} (halike : m.Alike m')
      (hline : ∀ p ∈ p?, onSameLine t' p' m' = onSameLine t p m)
      (hrest : Carried t t' (some m) ms m' ms') : Carried t t' p? (m :: ms) p' (m' :: ms')

namespace Carried

variable {t t' : Text} {p? : Option Marker} {p p' : Marker} {ms ms₁ ms₂ ms' : List Marker}

/-- Carried markers split where their originals do. -/
theorem exists_append (h : Carried t t' (some p) (ms₁ ++ ms₂) p' ms') :
    ∃ ms₁' ms₂', ms' = ms₁' ++ ms₂' ∧ Carried t t' (some p) ms₁ p' ms₁' ∧
      Carried t t' (some (ms₁.getLastD p)) ms₂ (ms₁'.getLastD p') ms₂' := by
  induction ms₁ generalizing p p' ms' with
  | nil => exact ⟨[], ms', rfl, .nil, h⟩
  | cons m ms₁ ih =>
    obtain _ | ⟨halike, hline, hrest⟩ := h
    obtain ⟨ms₁', ms₂', rfl, h₁, h₂⟩ := ih hrest
    refine ⟨_ :: ms₁', ms₂', rfl, .cons halike hline h₁, ?_⟩
    rwa [List.getLastD_cons, List.getLastD_cons]

/-- Carried markers open edits of the same names. -/
theorem editNames (h : Carried t t' p? ms p' ms') : editNames ms' = editNames ms := by
  induction h with
  | nil => rfl
  | @cons _ _ m m' ms ms' halike _ _ ih =>
    rw [← List.singleton_append, editNames_append, ih, halike.editNames, ← editNames_append]
    rfl

end Carried

end Marker

/-! ## Arrangements that are carried -/

variable {t t' : Text}

/-- The last marker inside a block is the last of the marks, or the one in front of them. -/
theorem Inside.last {family : Family} {isInline : Bool} {depth : Nat} {p q : Marker}
    {marks : List Mark} (h : Inside t family isInline depth p marks q) :
    q = (marks.map Mark.marker).getLastD p := by
  induction h with
  | nil => rfl
  | block _ _ _ _ _ _ _ _ _ _ _ ih =>
    simp only [List.map_cons, List.map_append, Mark.marker, List.getLastD_eq_getLast?,
      List.getLast?_cons, List.getLast?_append_cons, Option.getD_some] at ih ⊢
    exact ih

/-- The last marker inside a block is one of the marks, or the one in front of them. -/
theorem Inside.last_mem {family : Family} {isInline : Bool} {depth : Nat} {p q : Marker}
    {marks : List Mark} (h : Inside t family isInline depth p marks q) :
    q = p ∨ q ∈ marks.map Mark.marker := by
  rw [h.last, List.getLastD_eq_getLast?]
  cases hlast : (marks.map Mark.marker).getLast? with
  | none => exact .inl rfl
  | some m => exact .inr (List.mem_of_getLast? hlast)

/-- Whether a marker clashes with the one in front of it can be told from any that are alike. -/
theorem Marker.Alike.clashes {p p' m m' : Marker} (hp : p.Alike p') (hm : m.Alike m') :
    clashes (some p') m' = clashes (some p) m := by
  simp only [Pairing.clashes, hp.isEnd, hp.family, hm.isEnd, hm.family]

/-- **Marks inside a block are carried** along with their markers. -/
theorem Inside.carry {family : Family} {isInline : Bool} {depth : Nat} {p q p' : Marker}
    {marks : List Mark} {ms' : List Marker} (h : Inside t family isInline depth p marks q)
    (hp : p.Alike p') (hms : Marker.Carried t t' (some p) (marks.map Mark.marker) p' ms')
    (depth' : Nat) :
    ∃ marks' q', marks'.map Mark.marker = ms' ∧ Inside t' family isInline depth' p' marks' q' ∧
      q.Alike q' := by
  induction h generalizing p' ms' depth' with
  | nil =>
    obtain _ | _ := hms
    exact ⟨[], p', rfl, .nil, hp⟩
  | @block family isInline depth p q r b inner rest hopens hends _ hline hinline hedit hinner hclose
      hclash _ ihInner ihRest =>
    simp only [List.map_cons, List.map_append, Mark.marker] at hms
    obtain _ | @⟨_, _, _, opening', _, _, hopening, hlineOpen, hms⟩ := hms
    obtain ⟨_, _, rfl, hinnerMs, hms⟩ := hms.exists_append
    obtain _ | @⟨_, _, _, ending', _, _, hending, hlineEnd, hrestMs⟩ := hms
    obtain ⟨inner', q', rfl, hinner', hq⟩ := ihInner hopening hinnerMs (depth' + 1)
    obtain ⟨rest', r', rfl, hrest', hr⟩ := ihRest hending hrestMs depth'
    rw [← hinner.last, ← hinner'.last] at hlineEnd
    have hencloses := Block.encloses_ofMarkers (hopening.isEnd.trans hopens)
      (hending.isEnd.trans hends) (by rwa [hopening.family])
      ((hlineEnd q rfl).trans hclose) ((hq.clashes hending).trans hclash)
    refine ⟨_, r', ?_, Block.inside_ofMarkers hencloses ((hlineOpen p rfl).trans hline) hinline
      (by rwa [hopening.family]) hrest', hr⟩
    simp [Mark.marker]

/-- **Outermost marks are carried into a block** along with their markers, if outermost blocks share
lines exactly if the block lies on one line, and if neither is an edit directly inside an edit. -/
theorem Outermost.carry_inside {family : Family} {isInline : Bool} {previous? : Option Block}
    {p' : Marker} {marks : List Mark} {ms' : List Marker} (h : Outermost t previous? marks)
    (hms : Marker.Carried t t' (previous?.map Block.ending) (marks.map Mark.marker) p' ms')
    (hfirst : previous? = none → ∀ m' ∈ ms'.head?, onSameLine t' p' m' = isInline)
    (hlines : (previous?.toList ++ Mark.outermost marks).IsChain
      fun a b => onSameLine t a.ending b.opening = isInline)
    (hblocks : ∀ b ∈ Mark.outermost marks, (isInline → b.isInline) ∧
      ¬ (b.family = .edit ∧ family = .edit)) (depth' : Nat) :
    ∃ marks' q', marks'.map Mark.marker = ms' ∧ Inside t' family isInline depth' p' marks' q' ∧
      (marks = [] ∧ q' = p' ∨ q'.isEnd = true) := by
  induction h generalizing p' ms' with
  | nil =>
    obtain _ | _ := hms
    exact ⟨[], p', rfl, .nil, .inl ⟨rfl, rfl⟩⟩
  | @block previous? b inner rest henclosed hfits hrest ih =>
    obtain ⟨q, hinner, hclose, hclash⟩ := henclosed.layout
    rw [Mark.outermost_block henclosed] at hlines hblocks
    obtain ⟨hb, hblocks⟩ := List.forall_mem_cons.1 hblocks
    simp only [List.map_cons, List.map_append, Mark.marker] at hms
    obtain _ | @⟨_, _, _, opening', _, _, hopening, hlineOpen, hms⟩ := hms
    obtain ⟨_, _, rfl, hinnerMs, hms⟩ := hms.exists_append
    obtain _ | @⟨_, _, _, ending', _, _, hending, hlineEnd, hrestMs⟩ := hms
    have hchain := (List.isChain_append.1 hlines).2.1
    obtain ⟨inner', q', rfl, hinner', hq⟩ := hinner.carry hopening hinnerMs (depth' + 1)
    obtain ⟨rest', r', rfl, hrest', hr⟩ := ih hrestMs (by simp) hchain hblocks
    rw [← hinner.last, ← hinner'.last] at hlineEnd
    have hencloses := Block.encloses_ofMarkers (hopening.isEnd.trans henclosed.opens)
      (hending.isEnd.trans henclosed.ends) (by rwa [hopening.family])
      ((hlineEnd q rfl).trans hclose) ((hq.clashes hending).trans hclash)
    have hline : onSameLine t' p' opening' = isInline := by
      cases previous? with
      | none => exact hfirst rfl _ rfl
      | some a => exact (hlineOpen _ rfl).trans (List.isChain_cons_cons.1 hlines).1
    refine ⟨_, r', ?_, Block.inside_ofMarkers hencloses hline hb.1 (by rw [hopening.family]; exact hb.2)
      hrest', .inr ?_⟩
    · simp [Mark.marker]
    · rcases hr with ⟨-, rfl⟩ | hr
      · exact hending.isEnd.trans henclosed.ends
      · exact hr

/-! ## Markers of an indented text -/

/-- Two markers are on one line if no line feed is between them. -/
theorem Pairing.onSameLine_append {x y : Text} {p m : Marker} (z : Text) (hp : p.closeEnd = x.length)
    (hm : m.openAt = (x ++ y).length) : onSameLine (x ++ y ++ z) p m = decide (newline ∉ y) := by
  rw [onSameLine, hp, hm, List.length_append, Text.extract_append]

/-- Two markers are on different lines if a line ends between them. -/
theorem Pairing.onSameLine_eq_false {x y : Text} {p m : Marker} (z : Text) (hy : newline ∈ y)
    (hp : p.closeEnd ≤ x.length) (hm : (x ++ y).length ≤ m.openAt) :
    onSameLine (x ++ y ++ z) p m = false := by
  rw [← Text.extract_append x y z, ← List.length_append] at hy
  simpa [onSameLine] using Text.mem_extract_mono hp hm hy

/-- In front of the first line feed, all markers are on one line. -/
theorem Pairing.onSameLine_of_notMem {x : Text} (z : Text) (h : newline ∉ x) (p : Marker) {m : Marker}
    (hm : m.openAt ≤ x.length) : onSameLine (x ++ z) p m = true := by
  rw [onSameLine, decide_eq_true_eq]
  intro hmem
  have hfront := Text.mem_extract_mono (Nat.zero_le _) hm hmem
  rw [List.extract_eq_take_drop, List.drop_zero, Nat.sub_zero, List.take_left] at hfront
  exact h hfront

/-- The last line of an indented text is behind the margin, if it is so where nothing is added. -/
theorem Text.lastLine_append_hang {margin before before' : Text} (hmargin : newline ∉ margin)
    (x : Text) (h : newline ∉ x → lastLine before' = margin ++ lastLine before) :
    lastLine (before' ++ hang margin x) = margin ++ lastLine (before ++ x) := by
  by_cases hx : newline ∈ x
  · obtain ⟨i, hi⟩ := Option.ne_none_iff_exists'.1 (mt lastIdxOf?_eq_none.1 (not_not.2 hx))
    obtain ⟨u, v, rfl, -, hv⟩ := lastIdxOf?_eq_some.1 hi
    rw [hang_append, hang_cons, if_pos rfl, hang_of_notMem hv, List.cons_append, ← List.append_assoc,
      ← List.append_assoc, lastLine_append_newline _ (by simp [hmargin, hv]),
      lastLine_append_newline _ hv]
  · rw [hang_of_notMem hx, lastLine_append_of_notMem _ hx, lastLine_append_of_notMem _ hx, h hx,
      List.append_assoc]

/-- No line feed comes in with a margin. -/
theorem Text.newline_mem_hang_iff (margin x : Text) : newline ∈ hang margin x ↔ newline ∈ x := by
  induction x with
  | nil => rfl
  | cons b x ih =>
    rw [hang_cons, List.mem_append, ih, List.mem_cons]
    by_cases hb : b = newline <;> simp [hb, Ne.symm]

namespace Lexeme

variable {s : Settings} {margin : Text}

/-- **A marker keeps its header when its text is indented.** A header on one line needs nothing more. -/
theorem read?_hang (hs : s.Solid) (hcloser : ∀ f, (s.tokens f).closer ≠ [])
    (hmargin : ∀ b ∈ margin, Text.isIndent b) {before before' raw after : Text} {f : Family}
    {m : Marker} (h : read? s before f raw after = some m)
    (hline : newline ∈ raw → Text.lastLine before' = margin ++ Text.lastLine before)
    (after' : Text) :
    ∃ m', read? s before' f (Text.hang margin raw) after' = some m' ∧ m.Alike m' := by
  have hopener := (hs.opener f).newline_notMem
  by_cases hraw : newline ∈ raw
  · obtain ⟨lines, hlines, rfl⟩ := Option.map_eq_some_iff.1 h
    have hlines' : Marker.headerLines? (s.tokens f) (Text.lastLine before') (Text.hang margin raw)
        ((s.tokens f).closer ++ after') = some lines := by
      rw [hline hraw, Marker.headerLines?_hang hmargin hopener, ← hlines]
      exact Marker.headerLines?_congr_after hopener (hcloser f) ..
    exact ⟨_, Option.map_eq_some_iff.2 ⟨lines, hlines', rfl⟩, rfl, rfl, rfl⟩
  · rw [Text.hang_of_notMem hraw]
    exact ⟨_, read?_behind hopener (hcloser f) h (fun hn => absurd hn hraw) after',
      m.alike_behind before'⟩

/-- **The markers of a text are carried along when it is indented**, behind any text that ends in the
margin. Where no line ends, the text in front does not matter. -/
theorem exists_carried (hs : s.Solid) (hcloser : ∀ f, (s.tokens f).closer ≠ [])
    (hmargin : ∀ b ∈ margin, Text.isIndent b) {t t' before before' after after' : Text}
    {ls : List Lexeme} {ms : List Marker} (p? : Option Marker) (p' : Marker)
    (hread : markersFrom s before ls [] = some ms)
    (hline : newline ∈ textOf s ls → Text.lastLine before' = margin ++ Text.lastLine before)
    (ht : t = before ++ textOf s ls ++ after) (ht' : t' = before' ++ textOf s (hung margin ls) ++ after')
    (hp : ∀ p ∈ p?, ∃ x y x' y', before = x ++ y ∧ p.closeEnd = x.length ∧ before' = x' ++ y' ∧
      p'.closeEnd = x'.length ∧ (newline ∈ y' ↔ newline ∈ y)) :
    ∃ ms', markersFrom s before' (hung margin ls) [] = some ms' ∧
      Marker.Carried t t' p? ms p' ms' := by
  have hnewline := Text.newline_notMem_of_isIndent hmargin
  induction ls generalizing before before' p? p' ms with
  | nil =>
    cases hread
    exact ⟨[], rfl, .nil⟩
  | cons l ls ih =>
    cases l with
    | byte b =>
      rw [hung_cons, hang, markersFrom_ofText_append]
      refine ih p? p' hread (fun hmem => Text.lastLine_append_hang hnewline _ fun _ => hline (by simp [hmem]))
        (by simpa using ht) (by simpa [hang] using ht') fun p hp' => ?_
      obtain ⟨x, y, x', y', rfl, hx, rfl, hx', hy⟩ := hp p hp'
      refine ⟨x, y ++ [b], x', y' ++ Text.hang margin [b], by simp, hx, by simp, hx', ?_⟩
      rw [List.mem_append, List.mem_append, hy, Text.newline_mem_hang_iff]
    | marker f raw =>
      obtain ⟨m, ms, hm, hms, rfl⟩ := markersFrom_marker.1 hread
      obtain ⟨m', hm', halike⟩ := read?_hang hs hcloser hmargin hm
        (fun hraw => hline (by simp [text, hraw])) (textOf s (hung margin ls) ++ [])
      obtain ⟨hopenAt, hcloseEnd⟩ := closeEnd_of_read? hm
      obtain ⟨hopenAt', hcloseEnd'⟩ := closeEnd_of_read? hm'
      have hline' : newline ∈ textOf s ls →
          Text.lastLine (before' ++ text s (marker f (Text.hang margin raw)))
            = margin ++ Text.lastLine (before ++ text s (marker f raw)) := by
        intro hmem
        rw [text_hang hs]
        exact Text.lastLine_append_hang hnewline _ fun _ => hline (by simp [hmem])
      obtain ⟨ms', hms', hcarried⟩ := ih (some m) m' hms hline' (by simpa using ht)
        (by simpa [hang] using ht') (by
          rintro p ⟨⟩
          exact ⟨_, [], _, [], (List.append_nil _).symm, hcloseEnd, (List.append_nil _).symm,
            hcloseEnd', Iff.rfl⟩)
      refine ⟨m' :: ms', ?_, .cons halike (fun p hp' => ?_) hcarried⟩
      · rw [hung_cons, hang, List.singleton_append]
        exact markersFrom_marker.2 ⟨m', ms', hm', hms', rfl⟩
      · obtain ⟨x, y, x', y', rfl, hx, rfl, hx', hy⟩ := hp p hp'
        rw [ht, ht', List.append_assoc _ _ after, List.append_assoc _ _ after',
          Pairing.onSameLine_append _ hx hopenAt, Pairing.onSameLine_append _ hx' hopenAt']
        exact decide_eq_decide.2 (not_congr hy)

end Lexeme

end Regen
