import Regen.Proofs.Characters
import Regen.Proofs.Printing
import Regen.Proofs.Restoring

/-!
# Headers of several lines behind a prefix

A header of several lines is written with the same prefix in front of each of its lines as there is in front of its
marker: a comment sign, some indentation, whatever the language of the text asks for. Reading such a header is to take
off the prefix again, and nothing else. Columns are bytes here, and each column of the prefix is repeated by itself: a
tab by a tab, a blank by a blank, and everything else stands in the comment, since a prefix that holds no white space but
blanks and tabs has its comment reach up to the last of its other bytes (`Marker.mismatch?_prefix`).

So **the lines of a prefixed header are read back as they are** (`Document.header_prefixed`), be they blank, indented or
full of openers. A cut through the middle of a character does not come up, as the lines are texts of their own. This is
where the prefix and the lines have to be strings: the first byte of a string is never in the middle of a character
(`Text.isContinuation_of_head?`), and a byte of ASCII is written for a character of ASCII only
(`Text.mem_toList_of_toUInt8_mem`).
-/

namespace Regen

open Text (newline space tab)

/-! ## The bytes of strings -/

namespace Text

/-- **A byte of ASCII is written for its character only.** -/
theorem mem_toList_of_toUInt8_mem {s : String} {c : Char} (hc : c.toNat < 0x80)
    (h : c.toUInt8 ∈ ofString s) : c ∈ s.toList := by
  have hvalue : c.toUInt8.toNat = c.toNat := Nat.mod_eq_of_lt (hc.trans (by decide))
  have hlow : c.toUInt8 < 0x80 := UInt8.lt_iff_toNat_lt.2 (hvalue ▸ hc)
  have hsize : c.utf8Size = 1 := Char.utf8Size_eq_one_iff.2 (UInt32.le_iff_toNat_le.2 (Nat.le_of_lt_succ hc))
  rw [ofString_eq_encode, encode, List.mem_flatMap] at h
  obtain ⟨d, hd, hmem⟩ := h
  obtain ⟨b, rest, hwritten, -, hcontinue, hascii⟩ := utf8EncodeChar_eq_cons d
  rw [hwritten, List.mem_cons] at hmem
  rcases hmem with rfl | hmem
  · have hsame : String.utf8EncodeChar c = String.utf8EncodeChar d := by
      rw [String.utf8EncodeChar_eq_singleton hsize, hwritten, hascii hlow]
      rfl
    rwa [eq_of_utf8EncodeChar_append (congrArg (· ++ []) hsame)]
  · have hhigh := hcontinue _ hmem
    simp only [isContinuation, Bool.and_eq_true, decide_eq_true_eq] at hhigh
    exact absurd hlow (UInt8.not_lt.2 hhigh.1)

/-- Strings are told by their bytes. -/
theorem ofString_injective : Function.Injective ofString := fun _ _ h =>
  String.toByteArray_inj.1 (ByteArray.ext (Array.toList_inj.1 h))

/-- The bytes of joined lines are the text of the lines. -/
theorem ofString_intercalate (ls : List String) :
    ofString ("\n".intercalate ls) = ofLines (ls.map ofString) := by
  have hnewline : ofString "\n" = [newline] := by decide +kernel
  induction ls with
  | nil => rfl
  | cons l ls ih =>
    by_cases hls : ls = []
    · simp [hls]
    · rw [String.intercalate_cons_of_ne_nil hls, ofString_append, ofString_append, ih, hnewline, List.map_cons,
        ofLines_cons _ (by simpa using hls)]
      simp

/-- A string does not begin in the middle of a character. -/
theorem isContinuation_of_head? {s : String} {b : UInt8} (h : b ∈ (ofString s).head?) :
    isContinuation b = false := by
  rw [ofString_eq_encode] at h
  exact isContinuation_of_head?_encode b h

end Text

/-! ## Reading a prefixed header -/

/-- **A prefix of lines**: it is on one line, all white space in it is blanks and tabs, and none of the standard tokens
begins in it. -/
structure Text.Neutral (p : Text) : Prop where
  /-- All white space is blanks and tabs. -/
  isIndent : ∀ b ∈ p, Text.isBlank b → Text.isIndent b
  /-- No opener begins in it. -/
  opener : ∀ b ∈ p, ∀ f, (Settings.standard.tokens f).opener.head? ≠ some b
  /-- The closer of generation markers does not begin in it. -/
  closer : ∀ b ∈ p, Settings.standard.generation.closer.head? ≠ some b

/-- **A line of a prefixed header**: it is on one line, the closer does not begin in it, and it does not begin in the
middle of a character. -/
structure Text.HeaderLine (l : Text) : Prop where
  /-- It is on one line. -/
  newline_notMem : newline ∉ l
  /-- The closer of generation markers does not begin in it. -/
  closer : ∀ b ∈ l, Settings.standard.generation.closer.head? ≠ some b
  /-- It begins with a character. -/
  head : ∀ b ∈ l.head?, Text.isContinuation b = false

/-- A prefix is on one line. -/
theorem Text.Neutral.newline_notMem {p : Text} (hp : p.Neutral) : newline ∉ p := fun h =>
  absurd (hp.isIndent _ h (by decide)) (by decide)

namespace Marker

variable {p : Text} {k : Tokens}

/-- The comment in front of a marker reaches over every byte that is no white space. -/
theorem lt_commentColumn (u v : Text) {b : UInt8} (hb : Text.isBlank b = false) :
    u.length < (standIn k (u ++ b :: v)).commentColumn := by
  have hkept : (b :: u.reverse).dropWhile Text.isBlank = b :: u.reverse := by
    rw [List.dropWhile_cons_of_neg (by simp [hb])]
  simp only [commentColumn, standIn, List.reverse_append, List.reverse_cons, List.append_assoc,
    List.singleton_append, List.dropWhile_append, hkept]
  split
  · simp
  · simp only [List.length_append, List.length_cons, List.length_reverse]
    omega

/-- A byte of a prefix repeats itself in its column. -/
theorem repeats_of_neutral {u v : Text} {b : UInt8} (hp : Text.Neutral (u ++ b :: v)) :
    repeats (standIn k (u ++ b :: v)).commentColumn u.length (if b = tab then tab else space) b = true := by
  rw [repeats]
  by_cases hspace : b = space
  · subst hspace
    rw [if_pos rfl]
    decide
  by_cases htab : b = tab
  · subst htab
    rw [if_neg hspace, if_pos rfl]
    decide
  have hindent : ¬ Text.isIndent b := fun h => (Text.isIndent_iff.1 h).elim hspace htab
  have hblank : Text.isBlank b = false := by simpa using mt (hp.isIndent b (by simp)) hindent
  rw [if_neg hspace, if_neg htab]
  exact decide_eq_true (lt_commentColumn u v hblank)

/-- **A prefix repeats itself**, whatever stands behind it. -/
theorem mismatch?_prefix (hp : p.Neutral) (terminated : Bool) (line : Text) :
    mismatch? (standIn k p).commentColumn terminated 0 (standIn k p).margin (p ++ line) = none := by
  -- by induction on what is left of the prefix
  have hfrom : ∀ v u : Text, p = u ++ v →
      mismatch? (standIn k p).commentColumn terminated u.length (standIn k v).margin (v ++ line) = none := by
    intro v
    induction v with
    | nil =>
      intro u _
      rfl
    | cons b v ih =>
      rintro u rfl
      have hrest := ih (u ++ [b]) (by simp)
      rw [List.length_append, List.length_singleton] at hrest
      show (if repeats _ u.length (if b = tab then tab else space) b = true then _ else _) = none
      rw [if_pos (repeats_of_neutral hp)]
      exact hrest
  exact hfrom p [] rfl

/-- What is cut off of a prefixed line is the prefix. -/
theorem cutMargin_prefix {line : Text} (hline : line.HeaderLine) : cutMargin p.length (p ++ line) = line := by
  rw [cutMargin, List.drop_left, Text.toCharStart]
  cases line with
  | nil => rfl
  | cons b line => exact List.dropWhile_cons_of_neg (by simp [hline.head b rfl])

/-- **The further lines of a prefixed header** are read back. The last line holds the closer, and nothing in front of it
but the prefix. -/
theorem furtherLines?_prefix (hp : p.Neutral) (terminated : Bool) {lines : List Text}
    (hlines : ∀ l ∈ lines, l.HeaderLine) :
    furtherLines? (standIn k p).margin (standIn k p).commentColumn terminated (lines.map (p ++ ·) ++ [p])
      = some lines := by
  have hwidth : (standIn k p).margin.length = p.length := List.length_map ..
  have hmismatch := fun terminated line => mismatch?_prefix (k := k) hp terminated line
  induction lines with
  | nil =>
    have hlast := hmismatch terminated []
    rw [List.append_nil] at hlast
    simp [furtherLines?, hlast, hwidth]
  | cons line lines ih =>
    obtain ⟨hline, hlines⟩ := List.forall_mem_cons.1 hlines
    rw [List.map_cons, List.cons_append, furtherLines?, hmismatch]
    simp [hwidth, cutMargin_prefix hline, ih hlines]

/-- A header of several lines as it is written: its lines and that of the closer, all of them behind the prefix. -/
def rawLines (p : Text) (lines : List Text) : Text := Text.ofLines ([] :: (lines.map (p ++ ·) ++ [p]))

/-- **A prefixed header is read back**, if its family may have headers of several lines. -/
theorem headerLines?_prefix (hp : p.Neutral) {lines : List Text} (hrule : k.headerRule ≠ .inline)
    (hlines : ∀ l ∈ lines, l.HeaderLine) (after : Text) :
    headerLines? k p (rawLines p lines) after = some lines := by
  have hsplit : Text.lines (rawLines p lines) = [] :: (lines.map (p ++ ·) ++ [p]) := by
    refine Text.lines_ofLines ?_ (List.cons_ne_nil _ _)
    rw [List.forall_mem_cons, List.forall_mem_append, List.forall_mem_map, List.forall_mem_singleton]
    refine ⟨List.not_mem_nil, fun l hl => ?_, hp.newline_notMem⟩
    simp [hp.newline_notMem, (hlines l hl).newline_notMem]
  have hseveral : ¬ newline ∉ k.opener ++ rawLines p lines := by
    rw [rawLines, Text.ofLines_cons [] (by simp)]
    simp
  have hmore : (lines.map (p ++ ·) ++ [p]).isEmpty = false := by simp
  rw [headerLines?, if_neg hseveral, if_neg hrule, hsplit]
  simp only [hmore, Bool.false_eq_true, if_false, furtherLines?_prefix hp _ hlines]
  rfl

end Marker

/-! ## The text around a prefixed header -/

namespace Text

/-- The last two of some lines. -/
theorem ofLines_append_pair (ls : List Text) (x y z : Text) :
    ofLines (ls ++ [x ++ y, z]) = ofLines (ls ++ [x]) ++ y ++ newline :: z := by
  induction ls with
  | nil => simp [ofLines_cons (x ++ y) (List.cons_ne_nil z [])]
  | cons l ls ih =>
    rw [List.cons_append, List.cons_append, ofLines_cons l (by simp), ofLines_cons l (by simp), ih]
    simp

/-- The bytes of a text are those of its lines, and line feeds. -/
theorem eq_or_exists_of_mem_ofLines {ls : List Text} {b : UInt8} (h : b ∈ ofLines ls) :
    b = newline ∨ ∃ l ∈ ls, b ∈ l := by
  induction ls with
  | nil => cases h
  | cons l ls ih =>
    by_cases hls : ls = []
    · rw [hls, ofLines_singleton] at h
      exact .inr ⟨l, by simp, h⟩
    · rw [ofLines_cons l hls, List.mem_append, List.mem_cons] at h
      rcases h with h | h | h
      · exact .inr ⟨l, by simp, h⟩
      · exact .inl h
      · exact (ih h).imp_right fun ⟨l', hl', hb⟩ => ⟨l', by simp [hl'], hb⟩

end Text

/-- No opener begins at any byte of a text that has none of their first bytes. -/
theorem Lexeme.Lexed.ofText_append {x : Text} {ls : List Lexeme}
    (hx : ∀ b ∈ x, ∀ f, (Settings.standard.tokens f).opener.head? ≠ some b) (h : Lexed .standard ls) :
    Lexed .standard (ofText x ++ ls) := by
  have hne := Settings.usable_standard.opener
  induction x with
  | nil => exact h
  | cons b x ih =>
    obtain ⟨hb, hx⟩ := List.forall_mem_cons.1 hx
    exact .byte (Text.not_isPrefix_of_head? (hne .generation) (hb .generation) _)
      (Text.not_isPrefix_of_head? (hne .edit) (hb .edit) _) (ih hx)

/-- **A generation block with a prefixed header**, and without a body: the lines of its markers, and those of the
header in between, all of them behind the prefix. -/
def prefixed (p : Text) (lines : List Text) : Text :=
  Text.ofLines ((p ++ Text.ofString "[[[") ::
    (lines.map (p ++ ·) ++ [p ++ Text.ofString "]]]", p ++ Text.ofString "[[[ end ]]]"]))

namespace Prefixed

variable {p : Text} {lines : List Text}

/-- The lexeme of the open marker. -/
def opening (p : Text) (lines : List Text) : Lexeme := .marker .generation (Marker.rawLines p lines)

/-- The lexemes of the block and of what follows it. -/
def lexemes (p : Text) (lines : List Text) (rest : Text) : List Lexeme :=
  Lexeme.ofText p ++ opening p lines ::
    (Lexeme.ofText (newline :: p) ++ .written .generation "end" :: Lexeme.ofText rest)

/-- The lexemes make up the text of the block. -/
theorem textOf_lexemes (p : Text) (lines : List Text) (rest : Text) :
    Lexeme.textOf .standard (lexemes p lines rest) = prefixed p lines ++ rest := by
  have htext : prefixed p lines = p ++ (Text.ofString "[[[" ++ Marker.rawLines p lines ++ Text.ofString "]]]")
      ++ newline :: (p ++ Text.ofString "[[[ end ]]]") := by
    rw [prefixed, Marker.rawLines, Text.ofLines_cons _ (by simp), Text.ofLines_cons _ (by simp),
      Text.ofLines_append_pair]
    simp
  have hend : (Settings.standard.tokens .generation).quote "end" = Text.ofString "[[[ end ]]]" := by
    decide +kernel
  rw [lexemes, Lexeme.textOf_append, Lexeme.textOf_cons, Lexeme.textOf_append, Lexeme.textOf_cons,
    Lexeme.textOf_ofText, Lexeme.textOf_ofText, Lexeme.textOf_ofText, Lexeme.text_written, hend, htext]
  simp [opening, Lexeme.text, Settings.tokens, Settings.standard, Tokens.generation]

/-- **The text of the block falls into its lexemes.** -/
theorem lexed (hp : p.Neutral) (hlines : ∀ l ∈ lines, l.HeaderLine) {rest : Text}
    (hrest : rest.Plain .standard) : Lexeme.Lexed .standard (lexemes p lines rest) := by
  have hne := Settings.usable_standard.closer .generation
  have hnewline : ∀ f, (Settings.standard.tokens f).opener.head? ≠ some newline := fun f => by
    cases f <;> decide +kernel
  have hraw : ∀ b ∈ Marker.rawLines p lines, Settings.standard.generation.closer.head? ≠ some b := by
    intro b hb
    rcases Text.eq_or_exists_of_mem_ofLines hb with rfl | ⟨l, hl, hmem⟩
    · decide +kernel
    · simp only [List.mem_cons, List.mem_append, List.mem_map, List.not_mem_nil, or_false] at hl
      rcases hl with rfl | ⟨line, hline, rfl⟩ | rfl
      · cases hmem
      · exact (List.mem_append.1 hmem).elim (hp.closer b) ((hlines line hline).closer b)
      · exact hp.closer b hmem
  have hend : Lexeme.Lexed .standard (.written .generation "end" :: Lexeme.ofText rest) :=
    .generation (Text.clear_of_head? hne (by decide +kernel) _) (Lexeme.lexed_ofText_iff.2 hrest)
  refine .ofText_append hp.opener (.generation (Text.clear_of_head? hne hraw _) (.ofText_append ?_ hend))
  exact List.forall_mem_cons.2 ⟨hnewline, hp.opener⟩

/-- The open marker of the block. -/
def openMarker (p : Text) (lines : List Text) : Marker where
  family := .generation
  tokens := .generation
  lead := p
  openAt := p.length
  closeEnd := (p ++ (opening p lines).text .standard).length
  headerLines := lines

/-- What stands in front of the end marker. -/
def before (p : Text) (lines : List Text) : Text := p ++ (opening p lines).text .standard ++ newline :: p

/-- The end marker of the block. -/
def endMarker (p : Text) (lines : List Text) : Marker := .printed (before p lines) .generation "end"

/-- **The markers of the block are read.** -/
theorem markersFrom_lexemes (hp : p.Neutral) (hlines : ∀ l ∈ lines, l.HeaderLine) (rest : Text) :
    Lexeme.markersFrom .standard [] (lexemes p lines rest) [] = some [openMarker p lines, endMarker p lines] := by
  have hlead : Text.lastLine p = p := Text.lastLine_append_of_notMem [] hp.newline_notMem
  rw [lexemes, Lexeme.markersFrom_ofText_append, List.nil_append]
  refine Lexeme.markersFrom_marker.2 ⟨openMarker p lines, [endMarker p lines], ?_, ?_, rfl⟩
  · rw [Lexeme.read?, hlead, Marker.headerLines?_prefix hp (by decide) hlines, Option.map_some, openMarker,
      List.length_append]
    rfl
  · rw [Lexeme.markersFrom_ofText_append]
    exact Lexeme.markersFrom_written (by decide +kernel) (Lexeme.markersFrom_ofText ..)

/-- **The two markers make a block** of whole lines, if the header is not the word that ends blocks. -/
theorem encloses (hend : Text.ofLines lines ≠ "end") (rest : Text) :
    Encloses (prefixed p lines ++ rest) 1
      (.ofMarkers (prefixed p lines ++ rest) (openMarker p lines) (endMarker p lines) 1 false) [] := by
  have hopens : (openMarker p lines).isEnd = false := beq_eq_false_iff_ne.2 hend
  have hends : (endMarker p lines).isEnd = true := Marker.isEnd_printed ..
  refine Block.encloses_ofMarkers hopens hends .nil ?_ (Pairing.clashes_eq_false (.inl rfl))
  rw [← textOf_lexemes, lexemes, Lexeme.textOf_append, Lexeme.textOf_cons, Lexeme.textOf_append,
    Lexeme.textOf_ofText, Lexeme.textOf_ofText, ← List.append_assoc, ← List.append_assoc]
  exact Pairing.onSameLine_eq_false _ (List.mem_cons_self ..) le_rfl le_rfl

end Prefixed

namespace Document

/-- A prefixed header is read back from the text of its block. -/
theorem exists_parse_prefixed {p : Text} {lines : List Text} (hp : p.Neutral) (hlines : ∀ l ∈ lines, l.HeaderLine)
    (hend : Text.ofLines lines ≠ "end") {rest : Text} (hrest : rest.Plain .standard) :
    ∃ d b, parse .standard (prefixed p lines ++ rest) = .ok d ∧ d.marks = [.opening b, .ending b] ∧
      b.opening = Prefixed.openMarker p lines := by
  let t := prefixed p lines ++ rest
  let b := Block.ofMarkers t (Prefixed.openMarker p lines) (Prefixed.endMarker p lines) 1 false
  have hopening : b.opening = Prefixed.openMarker p lines := Block.ofMarkers_opening ..
  have hending : b.ending = Prefixed.endMarker p lines := Block.ofMarkers_ending ..
  let d : Document := { source := t, marks := [.opening b, .ending b], edits := [] }
  have hmarkers : d.marks.map Mark.marker = [Prefixed.openMarker p lines, Prefixed.endMarker p lines] := by
    show [b.opening, b.ending] = _
    rw [hopening, hending]
  have hedits : editBlocks d.marks = [] := by
    have hfamily : b.family = .generation := congrArg Marker.family hopening
    simp [editBlocks, d, Mark.opened?, hfamily]
  refine ⟨d, b, parse_eq_ok_iff.2 ⟨Settings.usable_standard, ⟨_, Prefixed.lexed hp hlines hrest,
    Prefixed.textOf_lexemes p lines rest, ?_⟩, ?_, ?_, rfl, ?_⟩, rfl, hopening⟩
  · rw [hmarkers]
    exact Prefixed.markersFrom_lexemes hp hlines rest
  · exact .block (Prefixed.encloses hend rest) (fun a ha => absurd ha (Option.not_mem_none a)) .nil
  · rw [hedits]
    exact List.nodup_nil
  · rw [hedits]
    rfl

end Document

/-- A string is a prefix of lines if its only white space is blanks and tabs, and no character of the tokens is in it. -/
theorem Text.neutral_ofString {p : String}
    (hp : ∀ c ∈ p.toList, c ∉ ['\n', '\r', '\x0b', '\x0c', '[', ']', '<', '>']) : (ofString p).Neutral := by
  have hascii : ∀ c ∈ ['\n', '\r', '\x0b', '\x0c', '[', ']', '<', '>'], c.toNat < 0x80 := by simp
  have hfree : ∀ c ∈ ['\n', '\r', '\x0b', '\x0c', '[', ']', '<', '>'], c.toUInt8 ∉ ofString p := fun c hc hmem =>
    hp c (mem_toList_of_toUInt8_mem (hascii c hc) hmem) hc
  refine ⟨fun b hb hblank => ?_, fun b hb f hhead => ?_, fun b hb hhead => ?_⟩
  · simp only [isBlank, Bool.or_eq_true, beq_iff_eq] at hblank
    rcases hblank with ((((hspace | htab) | rfl) | rfl) | rfl) | rfl
    · exact isIndent_iff.2 (.inl hspace)
    · exact isIndent_iff.2 (.inr htab)
    · exact absurd hb (hfree '\n' (by decide))
    · exact absurd hb (hfree '\r' (by decide))
    · exact absurd hb (hfree '\x0b' (by decide))
    · exact absurd hb (hfree '\x0c' (by decide))
  · cases f with
    | generation =>
      cases hhead
      exact hfree '[' (by decide) hb
    | edit =>
      cases hhead
      exact hfree '<' (by decide) hb
  · cases hhead
    exact hfree ']' (by decide) hb

/-- A string is a line of a header if there is no line feed and no closing bracket in it. -/
theorem Text.headerLine_ofString {l : String} (hl : '\n' ∉ l.toList ∧ ']' ∉ l.toList) :
    (ofString l).HeaderLine where
  newline_notMem := fun h => hl.1 (mem_toList_of_toUInt8_mem (by decide) h)
  closer := by
    rintro b hb ⟨⟩
    exact hl.2 (mem_toList_of_toUInt8_mem (by decide) hb)
  head := fun _ hb => isContinuation_of_head? hb

namespace Document

/-- **Prefixed headers are read back.** Take a prefix for lines that holds no line feed, carriage return, vertical tab or
form feed and no character of the tokens, and some lines without line feed and closing bracket that are not the word that
ends blocks. Write a generation block whose header has these lines, each line of the text behind the prefix. This text can
be read with the standard settings, whatever plain text follows it. Its markers are those of the block, and the header of
the first one is made up of the lines as they are, blank lines included. -/
theorem header_prefixed {p : String} {lines : List String}
    (hp : ∀ c ∈ p.toList, c ∉ ['\n', '\r', '\x0b', '\x0c', '[', ']', '<', '>'])
    (hne : lines ≠ []) (hlines : ∀ l ∈ lines, '\n' ∉ l.toList ∧ ']' ∉ l.toList)
    (hend : "\n".intercalate lines ≠ "end") {rest : String} (hrest : (Text.ofString rest).Plain .standard) :
    ∃ d b, parse .standard (Text.ofString ("\n".intercalate
        ((p ++ "[[[") :: (lines.map (p ++ ·) ++ [p ++ "]]]", p ++ "[[[ end ]]]"])) ++ rest)) = .ok d ∧
      d.marks = [.opening b, .ending b] ∧ b.opening.header = Text.ofString ("\n".intercalate lines) ∧
      b.opening.headerEmpty = false := by
  have hlines : ∀ l ∈ lines.map Text.ofString, l.HeaderLine :=
    List.forall_mem_map.2 fun l hl => Text.headerLine_ofString (hlines l hl)
  have hheader := Text.ofString_intercalate lines
  have hend : Text.ofLines (lines.map Text.ofString) ≠ Text.ofString "end" := fun h =>
    hend (Text.ofString_injective (hheader.trans h))
  obtain ⟨d, b, hd, hmarks, hopening⟩ := exists_parse_prefixed (Text.neutral_ofString hp) hlines hend hrest
  refine ⟨d, b, ?_, hmarks, ?_, ?_⟩
  · have hprefixed : (lines.map (p ++ ·)).map Text.ofString = (lines.map Text.ofString).map (Text.ofString p ++ ·) := by
      simp [Text.ofString_append, Function.comp_def]
    rw [← hd, Text.ofString_append, Text.ofString_intercalate, prefixed, ← hprefixed]
    simp [Text.ofString_append]
  · rw [hopening, hheader]
    rfl
  · rw [hopening]
    simpa [Marker.headerEmpty, Prefixed.openMarker] using hne

/-- A header behind an indented comment sign: its first line is blank, and the others hold an opener, blanks of their own
and a character of several bytes. -/
theorem header_prefixed_comment :
    ∃ d b, parse .standard (Text.ofString (" \t//é [[[\n \t//é \n \t//é [[[ x\n \t//é   ö \n \t//é ]]]\n" ++
        " \t//é [[[ end ]]]\n")) = .ok d ∧
      d.marks = [.opening b, .ending b] ∧ b.opening.header = Text.ofString "\n[[[ x\n  ö " ∧
      b.opening.headerEmpty = false :=
  @header_prefixed " \t//é " ["", "[[[ x", "  ö "] (by simp) (by decide) (by decide) (by decide) "\n"
    ((Text.plain_iff Settings.usable_standard).2 fun f => by cases f <;> decide +kernel)

end Document

end Regen
