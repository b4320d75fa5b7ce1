import Regen.Proofs.Arrangement
import Regen.Proofs.Scanning

/-!
# What it takes for a text to be read

A text is read if no token is empty, its markers can be found and paired, and the names of its
edits are distinct. `parse_eq_ok_iff` says so in the terms of the modules before: a lexing whose
headers can be read, marks that are well arranged, and distinct names.

What a document says of its markers in terms of offsets is derived here too. Markers do not
overlap, and each stands in the text as it was written (`Marker.Stands`).
-/

namespace Regen

namespace Document

/-- Settings with no empty token. -/
structure Usable (s : Settings) : Prop where
  /-- The opener of a family is not empty. -/
  opener (f : Family) : (s.tokens f).opener ≠ []
  /-- The closer of a family is not empty. -/
  closer (f : Family) : (s.tokens f).closer ≠ []
  /-- The end word of a family is not empty. -/
  endWord (f : Family) : (s.tokens f).endWord ≠ []

theorem checkTokens_eq_ok_iff {f : Family} {k : Tokens} :
    checkTokens f k = .ok () ↔ k.opener ≠ [] ∧ k.closer ≠ [] ∧ k.endWord ≠ [] := by
  simp only [checkTokens, List.isEmpty_iff]
  by_cases ho : k.opener = [] <;> by_cases hc : k.closer = [] <;> by_cases he : k.endWord = [] <;>
    simp [ho, hc, he, fail]

/-- The settings are accepted exactly if no token is empty. -/
theorem checkSettings_eq_ok_iff {s : Settings} : checkSettings s = .ok () ↔ Usable s := by
  rw [checkSettings, bind_eq_ok_iff]
  constructor
  · rintro ⟨⟨⟩, hgeneration, hedit⟩
    obtain ⟨hgo, hgc, hge⟩ := checkTokens_eq_ok_iff.1 hgeneration
    obtain ⟨heo, hec, hee⟩ := checkTokens_eq_ok_iff.1 hedit
    exact ⟨fun f => by cases f <;> assumption, fun f => by cases f <;> assumption,
      fun f => by cases f <;> assumption⟩
  · rintro ⟨ho, hc, he⟩
    exact ⟨(), checkTokens_eq_ok_iff.2 ⟨ho .generation, hc .generation, he .generation⟩,
      checkTokens_eq_ok_iff.2 ⟨ho .edit, hc .edit, he .edit⟩⟩

/-- **What it takes for a scan to find markers**, where no token is empty. -/
theorem Usable.scanAll_eq_ok_iff {s : Settings} (h : Usable s) {t : Text} {ms : List Marker} :
    Marker.scanAll t s = .ok ms ↔ ∃ ls, Lexeme.Lexed s ls ∧ Lexeme.textOf s ls = t ∧
      Lexeme.markersFrom s [] ls [] = some ms :=
  Lexeme.scanAll_eq_ok_iff (h.opener .generation) (h.closer .generation) (h.opener .edit) (h.closer .edit)

/-- No edit is rejected as a duplicate if all names are distinct and new. -/
theorem duplicate?_eq_none_iff {names : List Text} {bs : List Block} :
    duplicate? names bs = none ↔
      (bs.map Block.name).Nodup ∧ ∀ b ∈ bs, b.name ∉ names := by
  induction bs generalizing names with
  | nil => simp [duplicate?]
  | cons b bs ih =>
    rw [duplicate?]
    by_cases hb : b.name ∈ names
    · simp [hb]
    · simp only [hb, ite_false, ih, List.map_cons, List.nodup_cons, List.mem_cons,
        List.mem_map, not_or, not_exists, not_and, forall_eq_or_imp, not_false_eq_true, true_and]
      constructor
      · rintro ⟨hnodup, hnew⟩
        exact ⟨⟨fun b' hb' => (hnew b' hb').1, hnodup⟩, fun b' hb' => (hnew b' hb').2⟩
      · rintro ⟨⟨hne, hnodup⟩, hnew⟩
        exact ⟨hnodup, fun b' hb' => ⟨hne b' hb', hnew b' hb'⟩⟩

/-- The edit blocks among marks. -/
def editBlocks (marks : List Mark) : List Block :=
  (marks.filterMap Mark.opened?).filter (·.family = .edit)

/-- **What it takes for a text to be read**, and what the document then is. -/
theorem parse_eq_ok_iff {s : Settings} {t : Text} {d : Document} :
    parse s t = .ok d ↔ Usable s ∧
      (∃ ls, Lexeme.Lexed s ls ∧ Lexeme.textOf s ls = t ∧
        Lexeme.markersFrom s [] ls [] = some (d.marks.map Mark.marker)) ∧
      Outermost t none d.marks ∧ ((editBlocks d.marks).map Block.name).Nodup ∧
      d.source = t ∧ d.edits = (editBlocks d.marks).map ({ source := t, block := · }) := by
  rw [parse, bind_eq_ok_iff]
  constructor
  · rintro ⟨_, hsettings, h⟩
    have husable := checkSettings_eq_ok_iff.1 hsettings
    obtain ⟨ms, hms, hpair⟩ := bind_eq_ok_iff.1 h
    obtain ⟨marks, hmarks, hedits⟩ := bind_eq_ok_iff.1 hpair
    obtain ⟨houter, rfl⟩ := pairMarkers_eq_ok_iff.1 hmarks
    cases hdup : duplicate? [] (editBlocks marks) with
    | some b =>
      rw [editBlocks] at hdup
      simp only [hdup] at hedits
      cases hedits
    | none =>
      have hnodup := (duplicate?_eq_none_iff.1 hdup).1
      rw [editBlocks] at hdup
      simp only [hdup] at hedits
      cases hedits
      exact ⟨husable, husable.scanAll_eq_ok_iff.1 hms, houter, hnodup, rfl, rfl⟩
  · rintro ⟨husable, hlexed, houter, hnodup, rfl, hedits⟩
    refine ⟨(), checkSettings_eq_ok_iff.2 husable, bind_eq_ok_iff.2 ⟨_,
      husable.scanAll_eq_ok_iff.2 hlexed, bind_eq_ok_iff.2 ⟨_, pairMarkers_eq_ok_iff.2 ⟨houter, rfl⟩, ?_⟩⟩⟩
    have hdup : duplicate? [] (editBlocks d.marks) = none :=
      duplicate?_eq_none_iff.2 ⟨hnodup, by simp⟩
    rw [editBlocks] at hdup hedits
    simp only [hdup, ← hedits]
    rfl

/-! ## Documents that were read -/

section

variable {s : Settings} {t : Text} {d : Document} (hd : parse s t = .ok d)
include hd

/-- It is read with usable settings. -/
theorem usable_of_parse : Usable s := (parse_eq_ok_iff.1 hd).1

/-- Its text is lexed, and the markers of the lexing are those of its marks. -/
theorem exists_lexed_of_parse : ∃ ls, Lexeme.Lexed s ls ∧ Lexeme.textOf s ls = t ∧
    Lexeme.markersFrom s [] ls [] = some (d.marks.map Mark.marker) := (parse_eq_ok_iff.1 hd).2.1

/-- Its marks are well arranged. -/
theorem outermost_of_parse : Outermost t none d.marks := (parse_eq_ok_iff.1 hd).2.2.1

/-- No two edits have the same name. -/
theorem nodup_of_parse : ((editBlocks d.marks).map Block.name).Nodup := (parse_eq_ok_iff.1 hd).2.2.2.1

/-- Its source is the text that was read. -/
theorem source_of_parse : d.source = t := (parse_eq_ok_iff.1 hd).2.2.2.2.1

/-- Its edits are the blocks of the family of edits. -/
theorem edits_of_parse : d.edits = (editBlocks d.marks).map ({ source := t, block := · }) :=
  (parse_eq_ok_iff.1 hd).2.2.2.2.2

end

end Document

/-- A text is plain if no opener is written in it. -/
theorem Text.plain_iff {s : Settings} (hs : Document.Usable s) {t : Text} :
    t.Plain s ↔ ∀ f, ¬ (s.tokens f).opener <:+: t :=
  forall_congr' fun f => Text.clear_iff_not_infix (hs.opener f) t

/-! ## Where markers stand -/

/-- **A marker stands in a text** as it was written: with the tokens of its family, behind its
lead, and inside the text. -/
structure Marker.Stands (s : Settings) (t : Text) (m : Marker) : Prop where
  /-- It is written with the tokens of its family. -/
  tokens : m.tokens = s.tokens m.family
  /-- The lead is what stands in front of it on its line. -/
  lead : m.lead = Text.lastLine (t.take m.openAt)
  /-- Opener and closer do not overlap. -/
  width : m.openAt + (m.tokens.opener.length + m.tokens.closer.length) ≤ m.closeEnd
  /-- It ends inside the text. -/
  bound : m.closeEnd ≤ t.length

namespace Marker.Stands

variable {s : Settings} {t : Text} {m : Marker}

/-- A marker starts before it ends. -/
theorem openAt_le (h : m.Stands s t) : m.openAt ≤ m.closeEnd :=
  (Nat.le_add_right ..).trans h.width

/-- It has a width, since its opener has. -/
theorem openAt_lt (hs : Document.Usable s) (h : m.Stands s t) : m.openAt < m.closeEnd := by
  have hopener := List.length_pos_of_ne_nil (hs.opener m.family)
  have hwidth := h.width
  rw [h.tokens] at hwidth
  omega

end Marker.Stands

/-- The markers of lexemes stand in the text one behind the other. -/
theorem Lexeme.stands_of_markersFrom {s : Settings} {before after : Text} {ls : List Lexeme}
    {ms : List Marker} (h : markersFrom s before ls after = some ms) :
    (∀ m ∈ ms, m.Stands s (before ++ textOf s ls ++ after) ∧ before.length ≤ m.openAt ∧
        m.closeEnd ≤ (before ++ textOf s ls).length) ∧
      ms.Pairwise (·.closeEnd ≤ ·.openAt) := by
  induction ls generalizing before ms with
  | nil =>
    cases h
    simp
  | cons l ls ih =>
    cases l with
    | byte b =>
      obtain ⟨hstands, hpairwise⟩ := ih h
      refine ⟨fun m hm => ?_, hpairwise⟩
      obtain ⟨hm, hopenAt, hcloseEnd⟩ := hstands m hm
      simp only [List.append_assoc, List.length_append, List.length_cons] at hm hopenAt
      exact ⟨by simpa using hm, by omega, by simpa using hcloseEnd⟩
    | marker f raw =>
      obtain ⟨m, ms', hm, hms', rfl⟩ := markersFrom_marker.1 h
      obtain ⟨hstands, hpairwise⟩ := ih hms'
      obtain ⟨hopenAt, hcloseEnd⟩ := closeEnd_of_read? hm
      have hlater : ∀ m' ∈ ms', m'.Stands s (before ++ textOf s (Lexeme.marker f raw :: ls) ++ after) ∧
          m.closeEnd ≤ m'.openAt ∧
          m'.closeEnd ≤ (before ++ textOf s (Lexeme.marker f raw :: ls)).length := by
        intro m' hm'
        obtain ⟨hstands, hle, hend⟩ := hstands m' hm'
        exact ⟨by simpa using hstands, by rwa [hcloseEnd], by simpa using hend⟩
      refine ⟨?_, List.pairwise_cons.2 ⟨fun m' hm' => (hlater m' hm').2.1, hpairwise⟩⟩
      have hle : before.length ≤ m.closeEnd := by rw [hcloseEnd]; simp
      rintro m' (_ | ⟨_, hm'⟩)
      · obtain ⟨lines, -, rfl⟩ := Option.map_eq_some_iff.1 hm
        refine ⟨⟨rfl, ?_, ?_, ?_⟩, le_refl _, ?_⟩
        · simp
        · simp [text]
        · simp
        · simp
      · obtain ⟨hstands, hle', hend⟩ := hlater m' hm'
        exact ⟨hstands, hle.trans hle', hend⟩

/-- **An opener is written where a marker stands.** -/
theorem Document.extract_opener {s : Settings} {t : Text} {d : Document} (hd : parse s t = .ok d) {m : Mark}
    (hm : m ∈ d.marks) : t.extract m.marker.openAt (m.marker.openAt + m.marker.tokens.opener.length)
      = (s.tokens m.marker.family).opener := by
  obtain ⟨ls, -, rfl, hread⟩ := exists_lexed_of_parse hd
  obtain ⟨ms₁, ms₂, hms⟩ := List.append_of_mem (List.mem_map_of_mem (f := Mark.marker) hm)
  rw [hms] at hread
  obtain ⟨ls₁, f, raw, ls₂, rfl, -, hm, -⟩ := Lexeme.exists_marker_of_markersFrom hread
  obtain ⟨lines, -, hm⟩ := Option.map_eq_some_iff.1 hm
  rw [← hm]
  simp [Lexeme.text]

end Regen
