import Mathlib.Data.List.DropRight
import Regen.Proofs.CheckedScan
import Regen.Proofs.PlainContent

/-!
# Indentation

What is written for a block of whole lines stands behind a margin, and what is read from it loses that margin again.
Both are taken from the lead, that is from what stands in front of the opener on its line, though in different ways:
the width is found by going back over the lead word by word, while the margin copies its bytes. **They fit together for
every marker that a scan reads** (`Marker.Margined`), whatever stands in the lead. The margin is as wide as what is
taken off, and it consists of bytes that are taken off.

For a marker that has been read it does not matter whether the scan goes on to succeed. So the markers in question are
those of each round of a scan (`Marker.Scanned`), among which are all markers of a text whose scan succeeds.

A text would also come back from behind a margin without any width. So the width is characterized apart from the way in
which it is found (`Marker.BodyStart`): it is that of the lead, or of what stands in front of the last word in it.
-/

namespace Regen

open Text (newline space tab isBlank)

namespace Text

variable {token t : Text} {start stop i : Nat}

/-- A token that is found lies inside of the text. -/
theorem find?_add_length_le (h : find? token t = some i) : i + token.length ≤ t.length := by
  induction t generalizing i with
  | nil =>
    rw [find?] at h
    split at h
    next hempty =>
      cases h
      rw [List.isEmpty_iff.1 hempty]
      exact le_rfl
    next => cases h
  | cons b t ih =>
    rw [find?] at h
    split at h
    next hprefix =>
      cases h
      rw [Nat.zero_add]
      exact (List.isPrefixOf_iff_prefix.1 hprefix).length_le
    next =>
      obtain ⟨j, hj, rfl⟩ := Option.map_eq_some_iff.1 h
      have hbound := ih hj
      rw [List.length_cons]
      omega

/-- A token that is found in a stretch lies inside of the text, if the stretch begins there. -/
theorem findIn?_add_length_le (hstart : start ≤ t.length) (h : findIn? token t start stop = some i) :
    i + token.length ≤ t.length := by
  obtain ⟨j, hj, rfl⟩ := Option.map_eq_some_iff.1 h
  have hbound := find?_add_length_le hj
  rw [List.extract_eq_take_drop, List.length_take, List.length_drop] at hbound
  omega

/-- Bytes are dropped from the end of a text up to one that is to be kept. -/
theorem rdropWhile_append {p : UInt8 → Bool} {front back : Text} (hfront : ∀ b ∈ front.getLast?, ¬ p b)
    (hback : ∀ b ∈ back, p b) : (front ++ back).rdropWhile p = front := by
  rw [List.rdropWhile, List.reverse_append, List.dropWhile_append_of_pos (by simpa using hback)]
  exact List.rdropWhile_eq_self_iff.2 fun hne => hfront _ (List.getLast?_eq_some_getLast hne)

end Text

namespace Marker

/-! ## Where bodies start -/

/-- **The column at which the lines of a body start**, under an opener behind this lead. -/
inductive BodyStart : (asComment : Bool) → (lead : Text) → (column : Nat) → Prop
  /-- It is that of the opener, if all of the lead counts as indentation or if it is blank. -/
  | opener {asComment : Bool} {lead : Text} (h : asComment ∨ ∀ b ∈ lead, isBlank b) :
      BodyStart asComment lead lead.length
  /-- Otherwise it is that of the last word of the lead, which follows a blank or starts the line. -/
  | word {front word blanks : Text} (hfront : ∀ b ∈ front.getLast?, isBlank b) (hne : word ≠ [])
      (hword : ∀ b ∈ word, ¬ isBlank b) (hblanks : ∀ b ∈ blanks, isBlank b) :
      BodyStart false (front ++ word ++ blanks) front.length

/-- The lines of a body start at some column, whatever the lead. -/
theorem exists_bodyStart (asComment : Bool) (lead : Text) : ∃ c, BodyStart asComment lead c := by
  by_cases h : asComment ∨ ∀ b ∈ lead, isBlank b
  · exact ⟨_, .opener h⟩
  · obtain ⟨hcomment, hblank⟩ := not_or.1 h
    obtain rfl : asComment = false := by simpa using hcomment
    -- the lead is cut from behind, in front of its last blanks and in front of the word there
    have hne : lead.rdropWhile isBlank ≠ [] := fun hnil => hblank (List.rdropWhile_eq_nil_iff.1 hnil)
    have hsplit : lead = (lead.rdropWhile isBlank).rdropWhile (!isBlank ·)
        ++ (lead.rdropWhile isBlank).rtakeWhile (!isBlank ·) ++ lead.rtakeWhile isBlank := by
      rw [List.rdropWhile_append_rtakeWhile, List.rdropWhile_append_rtakeWhile]
    rw [hsplit]
    refine ⟨_, .word ?_ ?_ ?_ fun b hb => List.mem_rtakeWhile_imp hb⟩
    · intro b hb
      obtain ⟨hfront, rfl⟩ := List.mem_getLast?_eq_getLast hb
      simpa using List.rdropWhile_last_not _ _ hfront
    · intro hnil
      have hlast := List.rtakeWhile_eq_nil_iff.1 hnil hne
      exact hlast (by simpa using List.rdropWhile_last_not _ _ hne)
    · intro b hb
      simpa using List.mem_rtakeWhile_imp hb

variable {m : Marker} {c : Nat}

/-- The body column, with the lead cut from behind. -/
theorem bodyColumn_eq (m : Marker) : m.bodyColumn =
    if m.tokens.asComment ∨ m.lead.rdropWhile isBlank = [] then m.lead.length
    else ((m.lead.rdropWhile isBlank).rdropWhile (!isBlank ·)).length := by
  simp [bodyColumn, commentColumn, column, List.rdropWhile]

/-- The lines of a body start at no other column than the body column. -/
theorem BodyStart.eq_bodyColumn (h : BodyStart m.tokens.asComment m.lead c) : c = m.bodyColumn := by
  rw [bodyColumn_eq]
  generalize m.tokens.asComment = asComment at h
  generalize m.lead = lead at h
  cases h with
  | opener h => rw [if_pos (h.imp_right List.rdropWhile_eq_nil_iff.2)]
  | @word front word blanks hfront hne hword hblanks =>
    have hlast : ∀ b ∈ (front ++ word).getLast?, ¬ isBlank b := by
      intro b hb
      rw [List.getLast?_append_of_ne_nil _ hne] at hb
      exact hword b (List.mem_of_getLast? hb)
    have hcomment : (front ++ word ++ blanks).rdropWhile isBlank = front ++ word :=
      Text.rdropWhile_append hlast hblanks
    have hcut : (front ++ word).rdropWhile (!isBlank ·) = front :=
      Text.rdropWhile_append (by simpa using hfront) (by simpa using hword)
    rw [hcomment, hcut, if_neg (by simp [hne])]

/-- **The body column is where the lines of a body start.** -/
theorem bodyStart_iff : BodyStart m.tokens.asComment m.lead c ↔ c = m.bodyColumn := by
  constructor
  · exact BodyStart.eq_bodyColumn
  · rintro rfl
    obtain ⟨c, hc⟩ := exists_bodyStart m.tokens.asComment m.lead
    rwa [← hc.eq_bodyColumn]

/-! ## What a scan reads -/

/-- **A scan reads a marker** of a text: in a stretch that begins in the text the opener is the first one, the closer
is the first one behind it, and the header between them can be read. -/
def Scanned (t : Text) (s : Settings) (m : Marker) : Prop :=
  ∃ f start stop openAt closeAt, start ≤ t.length ∧
    Text.findIn? (s.tokens f).opener t start stop = some openAt ∧
    Text.findIn? (s.tokens f).closer t (openAt + (s.tokens f).opener.length) stop = some closeAt ∧
    read t f (s.tokens f) openAt closeAt = .ok m

variable {t : Text} {s : Settings} {f : Family} {k : Tokens} {ms : List Marker}

/-- What a marker that is read knows of its place. -/
theorem place_of_read {openAt closeAt : Nat} (h : read t f k openAt closeAt = .ok m) :
    m.openAt = openAt ∧ m.closeEnd = closeAt + k.closer.length ∧
      m.lead = t.extract (Text.lineStart t openAt) openAt := by
  rw [read] at h
  dsimp only at h
  split at h <;> cases h
  exact ⟨rfl, rfl, rfl⟩

/-- A marker that a scan reads lies inside of the text. -/
theorem Scanned.le_length (h : Scanned t s m) : m.openAt ≤ t.length ∧ m.closeEnd ≤ t.length := by
  obtain ⟨f, start, stop, openAt, closeAt, hstart, hopen, hclose, hread⟩ := h
  have hbehind := Text.findIn?_add_length_le hstart hopen
  have hend := Text.findIn?_add_length_le hbehind hclose
  obtain ⟨rfl, hcloseEnd, -⟩ := place_of_read hread
  exact ⟨(Nat.le_add_right ..).trans hbehind, hcloseEnd ▸ hend⟩

/-- The lead of a marker that a scan reads stands in front of it on its line. -/
theorem Scanned.lead_eq (h : Scanned t s m) : m.lead = t.extract (Text.lineStart t m.openAt) m.openAt := by
  obtain ⟨f, start, stop, openAt, closeAt, -, -, -, hread⟩ := h
  obtain ⟨rfl, -, hlead⟩ := place_of_read hread
  exact hlead

/-- **The markers that the scan of a stretch answers with** are each read in one of its rounds. -/
theorem scanned_of_scanFrom {stop steps start : Nat} (hstart : start ≤ t.length)
    (h : scanFrom t f (s.tokens f) stop steps start = .ok ms) : ∀ m ∈ ms, Scanned t s m := by
  induction steps generalizing start ms with
  | zero =>
    cases h
    simp
  | succ steps ih =>
    rw [scanFrom] at h
    cases hopen : Text.findIn? (s.tokens f).opener t start stop with
    | none =>
      rw [hopen] at h
      cases h
      simp
    | some openAt =>
      rw [hopen] at h
      dsimp only at h
      cases hclose : Text.findIn? (s.tokens f).closer t (openAt + (s.tokens f).opener.length) stop with
      | none =>
        rw [hclose] at h
        cases h
      | some closeAt =>
        rw [hclose] at h
        obtain ⟨m, hread, h⟩ := bind_eq_ok_iff.1 h
        obtain ⟨rest, hrest, ⟨⟩⟩ := bind_eq_ok_iff.1 h
        have hm : Scanned t s m := ⟨f, start, stop, openAt, closeAt, hstart, hopen, hclose, hread⟩
        exact List.forall_mem_cons.2 ⟨hm, ih hm.le_length.2 hrest⟩

/-- So are the edit markers that are put among others. -/
theorem scanned_of_scanGaps {start : Nat} {gms : List Marker} (hstart : start ≤ t.length)
    (hgms : ∀ m ∈ gms, Scanned t s m) (h : scanGaps t s.edit start gms = .ok ms) : ∀ m ∈ ms, Scanned t s m := by
  induction gms generalizing start ms with
  | nil => exact scanned_of_scanFrom (f := .edit) hstart h
  | cons g gms ih =>
    obtain ⟨hg, hgms⟩ := List.forall_mem_cons.1 hgms
    rw [scanGaps, bind_eq_ok_iff] at h
    obtain ⟨before, hbefore, h⟩ := h
    obtain ⟨after, hafter, ⟨⟩⟩ := bind_eq_ok_iff.1 h
    have hbefore : ∀ m ∈ before, Scanned t s m := scanned_of_scanFrom (f := .edit) hstart hbefore
    have hafter : ∀ m ∈ after, Scanned t s m := ih hg.le_length.2 hgms hafter
    exact List.forall_mem_append.2 ⟨hbefore, List.forall_mem_cons.2 ⟨hg, hafter⟩⟩

/-- **The markers of a text** are all read by its scan. -/
theorem scanned_of_scanAll (h : scanAll t s = .ok ms) : ∀ m ∈ ms, Scanned t s m := by
  obtain ⟨gms, hgms, h⟩ := bind_eq_ok_iff.1 h
  exact scanned_of_scanGaps (Nat.zero_le _) (scanned_of_scanFrom (f := .generation) (Nat.zero_le _) hgms) h

/-! ## Margins -/

/-- **The margin of a marker fits the text that holds it**, and a text comes back from behind it. -/
structure Margined (t : Text) (m : Marker) : Prop where
  /-- The column of the opener counts the bytes in front of it on its line. -/
  lineStart_add_column : Text.lineStart t m.openAt + m.column = m.openAt
  /-- These bytes say at which column the lines of the body start. -/
  bodyStart_iff : ∀ c, BodyStart m.tokens.asComment (t.extract (Text.lineStart t m.openAt) m.openAt) c ↔
    c = m.bodyColumn
  /-- That is no further than the opener. -/
  bodyColumn_le : m.bodyColumn ≤ m.column
  /-- The margin is as wide. -/
  length_bodyIndent : m.bodyIndent.length = m.bodyColumn
  /-- It is written with spaces and tabs. -/
  isIndent : ∀ b ∈ m.bodyIndent, b = space ∨ b = tab
  /-- It has its tabs where the line of the opener has them. -/
  getElem?_bodyIndent : ∀ i < m.bodyColumn,
    m.bodyIndent[i]? = some (if t[Text.lineStart t m.openAt + i]? = some tab then tab else space)
  /-- Taking the body column off the lines of a text undoes putting the margin in front of them. -/
  dedent_indent : ∀ x, Text.dedent m.bodyColumn (Text.indent m.bodyIndent x) = x
  /-- So a content can be told from the lines that a run writes for it. -/
  dedent_fill : ∀ (run : Run) (b : Block) (x : Text), b.opening = m → b.isInline = false →
    ∃ ls, run.fill t b (some x) = .ok (ls ++ [newline]) ∧ Text.dedent m.bodyColumn ls = x

/-- **The bytes of a margin** are those of the line of the opener, of which only the tabs are kept. -/
theorem getElem?_bodyIndent {start i : Nat} (hlead : m.lead = t.extract start m.openAt) (hopen : m.openAt ≤ t.length)
    (hi : i < m.bodyColumn) :
    m.bodyIndent[i]? = some (if t[start + i]? = some tab then tab else space) := by
  have hlt : i < m.openAt - start := by
    have hcolumn := m.bodyColumn_le_column
    rw [column, hlead, Checked.length_extract hopen] at hcolumn
    omega
  have hbyte : t[start + i]? = some t[start + i] := List.getElem?_eq_getElem (by omega)
  have hlast : m.lead[i]? = some t[start + i] := by
    rw [hlead, List.extract_eq_take_drop, List.getElem?_take_of_lt hlt, List.getElem?_drop, hbyte]
  rw [bodyIndent, margin, List.getElem?_take_of_lt hi, List.getElem?_map, hlast, hbyte]
  simp

/-- **What is put behind the margin of a marker comes back from there**, for every marker that a scan reads, and so for
all markers of a text whose scan succeeds. -/
theorem scan_margined (t : Text) (s : Settings) :
    (∀ m, Scanned t s m → m.Margined t) ∧ ∀ ms, scanAll t s = .ok ms → ∀ m ∈ ms, m.Margined t := by
  have hmargined : ∀ m, Scanned t s m → m.Margined t := by
    intro m h
    have hopen := h.le_length.1
    obtain ⟨hle, hcolumn, -⟩ := Checked.lineStart_of_lead h.lead_eq hopen
    exact {
      lineStart_add_column := by omega
      bodyStart_iff := fun c => h.lead_eq ▸ bodyStart_iff
      bodyColumn_le := m.bodyColumn_le_column
      length_bodyIndent := m.length_bodyIndent
      isIndent := fun b hb => Text.isIndent_iff.1 (m.isIndent_of_mem_bodyIndent hb)
      getElem?_bodyIndent := fun i hi => getElem?_bodyIndent h.lead_eq hopen hi
      dedent_indent := m.dedent_indent_bodyIndent
      dedent_fill := by
        rintro run b x rfl hlines
        exact ⟨_, by simp [Run.fill, hlines], b.opening.dedent_indent_bodyIndent x⟩ }
  exact ⟨hmargined, fun ms h m hm => hmargined m (scanned_of_scanAll h m hm)⟩

/-- A marker behind a tab, a letter of two bytes and the beginning of a comment. -/
def commentedText : Text := "\té /* [[[ a ]]]"

/-- The body is indented to the word in front of the opener, behind the tab. That holds as well where the scan
fails at an opener further on. -/
theorem scan_margined_commented :
    (∃ ms, scanAll commentedText .standard = .ok ms ∧ ∃ m ∈ ms, m.column = 7 ∧ m.bodyColumn = 4 ∧
      m.bodyIndent = "\t   " ∧ Text.indent m.bodyIndent "x\n\n\ty\n" = "\t   x\n\t   \n\t   \ty\n\t   " ∧
      Text.dedent m.bodyColumn (Text.indent m.bodyIndent "x\n\n\ty\n") = "x\n\n\ty\n") ∧
    ∃ m, Scanned (commentedText ++ " [[[") .standard m ∧ m.bodyColumn = 4 ∧
      (scanAll (commentedText ++ " [[[") .standard).toOption = none ∧ m.Margined (commentedText ++ " [[[") := by
  constructor
  · obtain ⟨ms, hms, m, hm, hcolumn, hbody, hindent, hwritten⟩ : ∃ ms, scanAll commentedText .standard = .ok ms ∧
        ∃ m ∈ ms, m.column = 7 ∧ m.bodyColumn = 4 ∧ m.bodyIndent = "\t   " ∧
          Text.indent m.bodyIndent "x\n\n\ty\n" = "\t   x\n\t   \n\t   \ty\n\t   " := ⟨_, rfl, by decide +kernel⟩
    have hmargined := (scan_margined commentedText .standard).2 ms hms m hm
    exact ⟨ms, hms, m, hm, hcolumn, hbody, hindent, hwritten, hmargined.dedent_indent _⟩
  · obtain ⟨m, hread, hbody⟩ : ∃ m, read (commentedText ++ " [[[") .generation .generation 7 13 = .ok m ∧
        m.bodyColumn = 4 := ⟨_, rfl, by decide +kernel⟩
    have hscanned : Scanned (commentedText ++ " [[[") .standard m :=
      ⟨.generation, 0, 20, 7, 13, by decide +kernel, by decide +kernel, by decide +kernel, hread⟩
    exact ⟨m, hscanned, hbody, by decide +kernel, (scan_margined _ _).1 m hscanned⟩

end Marker

end Regen
