import Regen.Proofs.Lexeme
import Regen.Proofs.Success

/-!
# What a scan finds

A scan answers with the markers of a lexing of its text, and fails exactly if a marker is not closed
or one of the headers cannot be read. The proof goes by families, as the scan does. A
scan for one family sees the markers of the other as bytes (`LexedFor`), and the gaps between
generation markers, scanned for edit markers, put the two lexings together.

## Main results

* `Lexeme.scan_eq_ok_iff`: the scan of a stretch of a text for one family.
* `Lexeme.scanAll_eq_ok_iff`: **the markers of a text are those of a lexing of it**.
-/

namespace Regen.Lexeme

variable {s : Settings} {f : Family}

/-! ## One marker -/

/-- A marker is read with the header that it has apart from its text. -/
theorem read_eq_ok_iff {pre raw post : Text} {m : Marker} :
    Marker.read (pre ++ text s (marker f raw) ++ post) f (s.tokens f) pre.length
        (pre.length + ((s.tokens f).opener ++ raw).length) = .ok m ↔
      read? s pre f raw post = some m := by
  have hlead := Text.extract_lineStart_append pre (text s (marker f raw) ++ post)
  rw [← List.append_assoc] at hlead
  have hclose : pre.length + ((s.tokens f).opener ++ raw).length + (s.tokens f).closer.length
      = pre.length + (text s (marker f raw)).length := by
    simp [text, Nat.add_assoc]
  simp only [Marker.read, hlead, hclose, read?]
  have hhead := Marker.readHeader_eq_headerLines? pre raw ((s.tokens f).closer ++ post)
    { family := f, tokens := s.tokens f, lead := Text.lastLine pre, openAt := pre.length
      closeEnd := pre.length + (text s (marker f raw)).length, headerLines := [] } rfl
  simp only [text] at hhead ⊢
  rw [show pre ++ ((s.tokens f).opener ++ raw) ++ ((s.tokens f).closer ++ post)
    = pre ++ ((s.tokens f).opener ++ raw ++ (s.tokens f).closer) ++ post by simp] at hhead
  rw [← hhead]
  generalize Marker.readHeader _ _ _ = header
  cases header with
  | ok lines => simp [Except.toOption]
  | error flaw => simp [Except.toOption, failAt, fail]

/-- Where a marker stands that is read. -/
theorem closeEnd_of_read? {before raw after : Text} {m : Marker}
    (h : read? s before f raw after = some m) :
    m.openAt = before.length ∧ m.closeEnd = (before ++ text s (marker f raw)).length := by
  obtain ⟨lines, -, rfl⟩ := Option.map_eq_some_iff.1 h
  simp

/-- The lead of a marker that is read. -/
theorem lead_of_read? {before raw after : Text} {m : Marker}
    (h : read? s before f raw after = some m) : m.lead = Text.lastLine before := by
  obtain ⟨lines, -, rfl⟩ := Option.map_eq_some_iff.1 h
  rfl

/-! ## One family -/

variable (s f)

/-- **Texts lexed for one family**: markers of the other family count as bytes. -/
inductive LexedFor : List Lexeme → Prop
  /-- The empty text. -/
  | nil : LexedFor []
  /-- A byte at which no marker of the family starts. -/
  | byte {b : UInt8} {ls : List Lexeme} (hopener : ¬ (s.tokens f).opener <+: b :: textOf s ls)
      (hrest : LexedFor ls) : LexedFor (byte b :: ls)
  /-- A marker of the family. -/
  | marker {raw : Text} {ls : List Lexeme}
      (hcloser : Text.Clear (s.tokens f).closer raw (s.tokens f).closer) (hrest : LexedFor ls) :
      LexedFor (marker f raw :: ls)

variable {s f}

/-- Bytes in front of a lexed text are lexed as bytes if no opener starts at one of them. -/
theorem lexedFor_ofText_append {x : Text} {ls : List Lexeme} :
    LexedFor s f (ofText x ++ ls) ↔
      Text.Clear (s.tokens f).opener x (textOf s ls) ∧ LexedFor s f ls := by
  induction x with
  | nil => simp
  | cons b x ih =>
    rw [ofText_cons, List.cons_append, Text.clear_cons, and_assoc, ← ih]
    constructor
    · rintro (_ | ⟨hopener, hrest⟩)
      exact ⟨by simpa using hopener, hrest⟩
    · rintro ⟨hopener, hrest⟩
      exact .byte (by simpa using hopener) hrest

/-- A text without openers is lexed as its bytes. -/
theorem lexedFor_ofText {x : Text} :
    LexedFor s f (ofText x) ↔ Text.Clear (s.tokens f).opener x [] := by
  have h : LexedFor s f (ofText x ++ []) ↔ _ := lexedFor_ofText_append
  simpa [LexedFor.nil] using h

/-- **The first marker of a lexed text**, or none. -/
theorem LexedFor.first {ls : List Lexeme} (h : LexedFor s f ls) :
    (∃ x, ls = ofText x ∧ Text.Clear (s.tokens f).opener x []) ∨
      ∃ x raw ls', ls = ofText x ++ Lexeme.marker f raw :: ls' ∧
        Text.Clear (s.tokens f).opener x (textOf s (Lexeme.marker f raw :: ls')) ∧
        Text.Clear (s.tokens f).closer raw (s.tokens f).closer ∧ LexedFor s f ls' := by
  induction h with
  | nil => exact .inl ⟨[], rfl, trivial⟩
  | @byte b ls hopener hrest ih =>
    rcases ih with ⟨x, rfl, hx⟩ | ⟨x, raw, ls', rfl, hx, hraw, hls'⟩
    · exact .inl ⟨b :: x, rfl, by simpa using hopener, hx⟩
    · exact .inr ⟨b :: x, raw, ls', rfl, ⟨by simpa using hopener, hx⟩, hraw, hls'⟩
  | @marker raw ls hcloser hrest ih => exact .inr ⟨[], raw, ls, rfl, trivial, hcloser, hrest⟩

/-- A lexed text is lexed as its first marker demands. -/
theorem LexedFor.eq_of_text (hopener : (s.tokens f).opener ≠ []) (hcloser : (s.tokens f).closer ≠ [])
    {ls : List Lexeme} {x raw z : Text} (h : LexedFor s f ls)
    (ht : textOf s ls = x ++ text s (Lexeme.marker f raw) ++ z)
    (hx : Text.Clear (s.tokens f).opener x (text s (Lexeme.marker f raw) ++ z))
    (hraw : Text.Clear (s.tokens f).closer raw (s.tokens f).closer) :
    ∃ ls', ls = ofText x ++ Lexeme.marker f raw :: ls' ∧ textOf s ls' = z ∧ LexedFor s f ls' := by
  rcases h.first with ⟨y, rfl, hy⟩ | ⟨y, raw', ls', rfl, hy, hraw', hls'⟩
  · rw [textOf_ofText] at ht
    rw [ht, List.append_assoc] at hy
    exact absurd hy (Text.not_clear_append hopener (by simp [text]) _)
  · simp only [textOf_append, textOf_ofText, textOf_cons, text, List.append_assoc] at ht hx hy
    rw [← List.append_assoc, ← List.append_assoc x] at ht
    obtain ⟨rfl, hz⟩ := Text.eq_of_clear hopener ht hy hx
    rw [← List.append_assoc, ← List.append_assoc raw] at hz
    obtain ⟨rfl, rfl⟩ := Text.eq_of_clear hcloser hz (hraw'.append_self _) (hraw.append_self _)
    exact ⟨ls', rfl, rfl, hls'⟩

/-- A lexed text in which an opener is not followed by a closer there is not. -/
theorem LexedFor.closed (hopener : (s.tokens f).opener ≠ []) (hcloser : (s.tokens f).closer ≠ [])
    {ls : List Lexeme} {x z : Text} (h : LexedFor s f ls)
    (ht : textOf s ls = x ++ (s.tokens f).opener ++ z)
    (hx : Text.Clear (s.tokens f).opener x ((s.tokens f).opener ++ z)) :
    ¬ Text.Clear (s.tokens f).closer z [] := by
  rcases h.first with ⟨y, rfl, hy⟩ | ⟨y, raw, ls', rfl, hy, -, -⟩
  · rw [textOf_ofText] at ht
    rw [ht, List.append_assoc] at hy
    exact absurd hy (Text.not_clear_append hopener (List.prefix_append _ _) _)
  · simp only [textOf_append, textOf_ofText, textOf_cons, text, List.append_assoc] at ht hy
    rw [← List.append_assoc, ← List.append_assoc x] at ht
    obtain ⟨rfl, rfl⟩ := Text.eq_of_clear hopener ht hy hx
    exact Text.not_clear_append hcloser (List.prefix_append _ _) _

/-- **One round of a scan**: no opener stands in the stretch, or one that is not closed, or a marker is read
in front of what the next round scans. -/
theorem scanFrom_succ_cases (hopener : (s.tokens f).opener ≠ []) (hcloser : (s.tokens f).closer ≠ [])
    {t pre w post : Text} {stop : Nat} (steps : Nat) {start : Nat} (ht : t = pre ++ w ++ post)
    (hstart : start = pre.length) (hstop : stop = pre.length + w.length) :
    (Text.Clear (s.tokens f).opener w [] ∧
      Marker.scanFrom t f (s.tokens f) stop (steps + 1) start = .ok []) ∨
    (∃ x z, w = x ++ (s.tokens f).opener ++ z ∧
      Text.Clear (s.tokens f).opener x ((s.tokens f).opener ++ z) ∧
      Text.Clear (s.tokens f).closer z [] ∧
      ∃ e, Marker.scanFrom t f (s.tokens f) stop (steps + 1) start = .error e) ∨
    ∃ x raw z, w = x ++ text s (marker f raw) ++ z ∧
      Text.Clear (s.tokens f).opener x (text s (marker f raw) ++ z) ∧
      Text.Clear (s.tokens f).closer raw (s.tokens f).closer ∧
      ∀ ms, Marker.scanFrom t f (s.tokens f) stop (steps + 1) start = .ok ms ↔
        ∃ m ms', read? s (pre ++ x) f raw (z ++ post) = some m ∧
          Marker.scanFrom t f (s.tokens f) stop steps (pre ++ x ++ text s (marker f raw)).length
            = .ok ms' ∧ ms = m :: ms' := by
  have hopen := Text.findIn?_append (s.tokens f).opener pre w post
  rw [← ht, ← hstart, hstart, ← hstop] at hopen
  rw [Marker.scanFrom, hstart, hopen]
  cases hfind : Text.find? (s.tokens f).opener w with
  | none => exact .inl ⟨(Text.find?_eq_none_iff hopener _).1 hfind, rfl⟩
  | some i =>
    obtain ⟨x, y, rfl, rfl, hx⟩ := (Text.find?_eq_some_iff hopener _ _).1 hfind
    have hclose := Text.findIn?_append (s.tokens f).closer (pre ++ x ++ (s.tokens f).opener) y post
    have hafter : x.length + pre.length + (s.tokens f).opener.length
        = (pre ++ x ++ (s.tokens f).opener).length := by simp; omega
    have hstop' : stop = (pre ++ x ++ (s.tokens f).opener).length + y.length := by
      rw [hstop]; simp; omega
    have ht' : t = pre ++ x ++ (s.tokens f).opener ++ y ++ post := by rw [ht]; simp
    rw [← ht', ← hstop'] at hclose
    simp only [Option.map_some, hafter, hclose]
    cases hfind' : Text.find? (s.tokens f).closer y with
    | none => exact .inr (.inl ⟨x, y, rfl, hx, (Text.find?_eq_none_iff hcloser _).1 hfind', _, rfl⟩)
    | some j =>
      obtain ⟨raw, z, rfl, rfl, hraw⟩ := (Text.find?_eq_some_iff hcloser _ _).1 hfind'
      refine .inr (.inr ⟨x, raw, z, by simp [text], by simpa [text] using hx, hraw.of_append,
        fun ms => ?_⟩)
      have hmarker : t = pre ++ x ++ text s (Lexeme.marker f raw) ++ (z ++ post) := by
        rw [ht]; simp [text]
      have hread := fun m => @read_eq_ok_iff s f (pre ++ x) raw (z ++ post) m
      have hopenAt : x.length + pre.length = (pre ++ x).length := by simp; omega
      have hcloseAt : raw.length + (pre ++ x ++ (s.tokens f).opener).length
          = (pre ++ x).length + ((s.tokens f).opener ++ raw).length := by simp; omega
      simp only [Option.map_some, hopenAt, hcloseAt, bind_eq_ok_iff, ← hmarker] at hread ⊢
      constructor
      · rintro ⟨m, hm, ms', hms', ⟨⟩⟩
        rw [hread] at hm
        exact ⟨m, ms', hm, (closeEnd_of_read? hm).2 ▸ hms', rfl⟩
      · rintro ⟨m, ms', hm, hms', rfl⟩
        exact ⟨m, (hread m).2 hm, ms', (closeEnd_of_read? hm).2 ▸ hms', rfl⟩

/-- **What a scan for one family finds** in a stretch of a text: the markers of a lexing of the
stretch. -/
theorem scanFrom_eq_ok_iff (hopener : (s.tokens f).opener ≠ [])
    (hcloser : (s.tokens f).closer ≠ []) {t post : Text} {stop : Nat} (steps : Nat) {start : Nat}
    {pre w : Text} {ms : List Marker} (ht : t = pre ++ w ++ post) (hstart : start = pre.length)
    (hstop : stop = pre.length + w.length) (hsteps : w.length < steps) :
    Marker.scanFrom t f (s.tokens f) stop steps start = .ok ms ↔
      ∃ ls, LexedFor s f ls ∧ textOf s ls = w ∧ markersFrom s pre ls post = some ms := by
  induction steps generalizing start pre w ms with
  | zero => omega
  | succ steps ih =>
    rcases scanFrom_succ_cases hopener hcloser steps ht hstart hstop with ⟨hclear, hscan⟩ |
      ⟨x, z, rfl, hx, hclear, e, hscan⟩ | ⟨x, raw, z, rfl, hx, hraw, hscan⟩
    · rw [hscan]
      constructor
      · rintro ⟨⟩
        exact ⟨ofText w, lexedFor_ofText.2 hclear, textOf_ofText s w, markersFrom_ofText ..⟩
      · rintro ⟨ls, hls, rfl, hms⟩
        rcases hls.first with ⟨x, rfl, -⟩ | ⟨x, raw, ls', rfl, -⟩
        · rw [markersFrom_ofText] at hms
          cases hms
          rfl
        · rw [textOf_append] at hclear
          exact absurd hclear (Text.not_clear_append hopener (by simp [text]) _)
    · rw [hscan]
      refine iff_of_false (by rintro ⟨⟩) ?_
      rintro ⟨ls, hls, hw, -⟩
      exact hls.closed hopener hcloser hw hx hclear
    · have hrest := fun ms => @ih _ (pre ++ x ++ text s (Lexeme.marker f raw)) z ms
        (by rw [ht]; simp) rfl (by rw [hstop]; simp; omega)
        (by have := List.length_pos_of_ne_nil hopener
            simp only [text, List.length_append] at hsteps
            omega)
      rw [hscan]
      constructor
      · rintro ⟨m, ms', hm, hms', rfl⟩
        obtain ⟨ls, hls, rfl, hms'⟩ := (hrest _).1 hms'
        refine ⟨ofText x ++ Lexeme.marker f raw :: ls, ?_, ?_, ?_⟩
        · exact lexedFor_ofText_append.2 ⟨by simpa [text] using hx, .marker hraw hls⟩
        · simp [text]
        · rw [markersFrom_ofText_append]
          exact markersFrom_marker.2 ⟨m, ms', hm, hms', rfl⟩
      · rintro ⟨ls, hls, hw, hms⟩
        obtain ⟨ls, rfl, rfl, hls⟩ := hls.eq_of_text hopener hcloser hw hx hraw
        rw [markersFrom_ofText_append] at hms
        obtain ⟨m, ms', hm, hms', rfl⟩ := markersFrom_marker.1 hms
        exact ⟨m, ms', hm, (hrest _).2 ⟨ls, hls, rfl, hms'⟩, rfl⟩

/-- The same for a scan that is given the ends of the stretch alone. -/
theorem scan_eq_ok_iff (hopener : (s.tokens f).opener ≠ []) (hcloser : (s.tokens f).closer ≠ [])
    {t pre w post : Text} {start stop : Nat} {ms : List Marker} (ht : t = pre ++ w ++ post)
    (hstart : start = pre.length) (hstop : stop = pre.length + w.length) :
    Marker.scan t f (s.tokens f) start stop = .ok ms ↔
      ∃ ls, LexedFor s f ls ∧ textOf s ls = w ∧ markersFrom s pre ls post = some ms :=
  scanFrom_eq_ok_iff hopener hcloser _ ht hstart hstop (by omega)

/-! ## Both families -/

/-- Where no generation marker stands, the stretch goes on. -/
theorem stretch_append_of_notMem {ls : List Lexeme} (h : ∀ raw, marker .generation raw ∉ ls)
    (ls' : List Lexeme) : stretch s (ls ++ ls') = textOf s ls ++ stretch s ls' := by
  induction ls with
  | nil => rfl
  | cons l ls ih =>
    have ih := ih fun raw hraw => h raw (List.mem_cons_of_mem _ hraw)
    rcases l with b | ⟨_ | _, raw⟩
    · simpa [stretch] using ih
    · exact absurd (List.mem_cons_self ..) (h raw)
    · simpa [stretch] using ih

/-- A text lexed for edit markers holds no others. -/
theorem LexedFor.generation_notMem {ls : List Lexeme} (h : LexedFor s .edit ls) (raw : Text) :
    Lexeme.marker .generation raw ∉ ls := by
  induction h with
  | nil => simp
  | byte _ _ ih => simpa using ih
  | marker _ _ ih => simpa using ih

/-- **A gap between generation markers** is lexed for edit markers alone, and no generation marker
starts in it. -/
theorem lexed_append_iff {ls ls' : List Lexeme} (h : ∀ raw, marker .generation raw ∉ ls)
    (hstretch : stretch s ls' = []) :
    Lexed s (ls ++ ls') ↔ LexedFor s .edit ls ∧
      Text.Clear s.generation.opener (textOf s ls) (textOf s ls') ∧ Lexed s ls' := by
  induction ls with
  | nil => simp [LexedFor.nil]
  | cons l ls ih =>
    have hls : ∀ raw, marker .generation raw ∉ ls :=
      fun raw hraw => h raw (List.mem_cons_of_mem _ hraw)
    have ih := ih hls
    have hst : stretch s (ls ++ ls') = textOf s ls := by
      rw [stretch_append_of_notMem hls, hstretch, List.append_nil]
    rw [List.cons_append, textOf_cons, Text.clear_append]
    rcases l with b | ⟨_ | _, raw⟩
    · constructor
      · rintro (_ | ⟨hgeneration, hedit, hrest⟩)
        obtain ⟨hfor, hclear, hlexed⟩ := ih.1 hrest
        rw [hst] at hedit
        exact ⟨.byte hedit hfor, ⟨⟨by simpa using hgeneration, trivial⟩, hclear⟩, hlexed⟩
      · rintro ⟨_ | ⟨hedit, hfor⟩, ⟨⟨hgeneration, -⟩, hclear⟩, hlexed⟩
        refine .byte (by simpa using hgeneration) ?_ (ih.2 ⟨hfor, hclear, hlexed⟩)
        rw [hst]
        exact hedit
    · exact absurd (List.mem_cons_self ..) (h raw)
    · constructor
      · rintro (_ | _ | _ | ⟨hcloser, hgeneration, hrest⟩)
        obtain ⟨hfor, hclear, hlexed⟩ := ih.1 hrest
        rw [textOf_append] at hgeneration
        exact ⟨.marker hcloser hfor, ⟨hgeneration, hclear⟩, hlexed⟩
      · rintro ⟨_ | _ | ⟨hcloser, hfor⟩, ⟨hgeneration, hclear⟩, hlexed⟩
        refine .edit hcloser ?_ (ih.2 ⟨hfor, hclear, hlexed⟩)
        rw [textOf_append]
        exact hgeneration

/-- Lexemes up to the first generation marker among them. -/
theorem exists_generation (ls : List Lexeme) :
    (∀ raw, marker .generation raw ∉ ls) ∨
      ∃ ls₁ raw ls₂, ls = ls₁ ++ marker .generation raw :: ls₂ ∧
        ∀ raw, marker .generation raw ∉ ls₁ := by
  induction ls with
  | nil => simp
  | cons l ls ih =>
    rcases l with b | ⟨_ | _, raw⟩
    · rcases ih with h | ⟨ls₁, raw, ls₂, rfl, h⟩
      · exact .inl (by simpa using h)
      · exact .inr ⟨byte b :: ls₁, raw, ls₂, rfl, by simpa using h⟩
    · exact .inr ⟨[], raw, ls, rfl, by simp⟩
    · rcases ih with h | ⟨ls₁, raw', ls₂, rfl, h⟩
      · exact .inl (by simpa using h)
      · exact .inr ⟨marker .edit raw :: ls₁, raw', ls₂, rfl, by simpa using h⟩

variable (hgo : s.generation.opener ≠ []) (hgc : s.generation.closer ≠ [])
  (heo : s.edit.opener ≠ []) (hec : s.edit.closer ≠ [])

include heo hec in
/-- The edit markers that are found in the gaps complete the generation markers to a lexing. -/
theorem exists_lexed_of_scanGaps {t pre : Text} {lsG : List Lexeme} {gms ms : List Marker}
    (ht : t = pre ++ textOf s lsG) (hlsG : LexedFor s .generation lsG)
    (hgms : markersFrom s pre lsG [] = some gms)
    (h : Marker.scanGaps t s.edit pre.length gms = .ok ms) :
    ∃ ls, Lexed s ls ∧ textOf s ls = textOf s lsG ∧ markersFrom s pre ls [] = some ms := by
  induction gms generalizing pre lsG ms with
  | nil =>
    rcases hlsG.first with ⟨x, rfl, hx⟩ | ⟨x, raw, ls', rfl, -⟩
    · rw [textOf_ofText] at ht
      obtain ⟨ls, hls, rfl, hms⟩ := (scan_eq_ok_iff (s := s) (f := .edit) heo hec
        (show t = pre ++ x ++ [] by simpa using ht) rfl (by simp [ht])).1 h
      refine ⟨ls, ?_, (textOf_ofText ..).symm, hms⟩
      have hlexed : Lexed s (ls ++ []) :=
        (lexed_append_iff hls.generation_notMem rfl).2 ⟨hls, hx, .nil⟩
      rwa [List.append_nil] at hlexed
    · rw [markersFrom_ofText_append] at hgms
      obtain ⟨m, ms', -, -, hcons⟩ := markersFrom_marker.1 hgms
      cases hcons
  | cons m gms ih =>
    rcases hlsG.first with ⟨x, rfl, -⟩ | ⟨x, raw, lsG', rfl, hx, hraw, hlsG'⟩
    · rw [markersFrom_ofText] at hgms
      cases hgms
    · rw [markersFrom_ofText_append] at hgms
      obtain ⟨m', gms', hm, hgms', hcons⟩ := markersFrom_marker.1 hgms
      obtain ⟨rfl, rfl⟩ := List.cons_eq_cons.1 hcons
      obtain ⟨hopenAt, hcloseEnd⟩ := closeEnd_of_read? hm
      rw [Marker.scanGaps, bind_eq_ok_iff] at h
      obtain ⟨before, hbefore, h⟩ := h
      obtain ⟨after, hafter, h⟩ := bind_eq_ok_iff.1 h
      cases h
      rw [textOf_append, textOf_ofText] at ht
      obtain ⟨ls₁, hls₁, rfl, hms₁⟩ := (scan_eq_ok_iff (s := s) (f := .edit) heo hec
        (show t = pre ++ x ++ textOf s (Lexeme.marker .generation raw :: lsG') by simpa using ht) rfl
        (by simp [hopenAt])).1 hbefore
      rw [hcloseEnd] at hafter
      obtain ⟨ls₂, hls₂, htext, hms₂⟩ := ih (by rw [ht]; simp) hlsG' hgms' hafter
      refine ⟨ls₁ ++ Lexeme.marker .generation raw :: ls₂, ?_, ?_, ?_⟩
      · refine (lexed_append_iff hls₁.generation_notMem rfl).2 ⟨hls₁, ?_, .generation hraw hls₂⟩
        rw [textOf_cons, htext]
        exact hx
      · simp [htext]
      · refine markersFrom_append.2 ⟨before, m :: after, ?_, ?_, rfl⟩
        · simpa [htext] using hms₁
        · exact markersFrom_marker.2 ⟨m, after, by simpa [htext] using hm, hms₂, rfl⟩

include heo hec in
/-- A lexing splits into its generation markers and the edit markers in the gaps between them. -/
theorem scanGaps_of_lexed {t pre : Text} {ls : List Lexeme} {ms : List Marker}
    (ht : t = pre ++ textOf s ls) (hls : Lexed s ls) (hms : markersFrom s pre ls [] = some ms) :
    ∃ lsG gms, LexedFor s .generation lsG ∧ textOf s lsG = textOf s ls ∧
      markersFrom s pre lsG [] = some gms ∧
      Marker.scanGaps t s.edit pre.length gms = .ok ms := by
  induction hn : ls.length using Nat.strongRecOn generalizing pre ls ms with
  | ind n ih =>
    rcases exists_generation ls with hno | ⟨ls₁, raw, ls₂, rfl, hno⟩
    · have hlexed := (lexed_append_iff hno rfl).1 (show Lexed s (_ ++ []) by rwa [List.append_nil])
      refine ⟨ofText (textOf s ls), [], lexedFor_ofText.2 hlexed.2.1, textOf_ofText ..,
        markersFrom_ofText .., ?_⟩
      exact (scan_eq_ok_iff (s := s) (f := .edit) heo hec (by simpa using ht) rfl
        (by simp [ht])).2 ⟨ls, hlexed.1, rfl, hms⟩
    · obtain ⟨hls₁, hclear, hls₂⟩ := (lexed_append_iff hno rfl).1 hls
      obtain _ | _ | ⟨hraw, hls₂⟩ := hls₂
      obtain ⟨before, rest, hbefore, hrest, rfl⟩ := markersFrom_append.1 hms
      obtain ⟨m, after, hm, hafter, rfl⟩ := markersFrom_marker.1 hrest
      obtain ⟨hopenAt, hcloseEnd⟩ := closeEnd_of_read? hm
      obtain ⟨lsG, gms, hlsG, htext, hgms, hscan⟩ :=
        ih ls₂.length (by simp at hn; omega) (by simpa using ht) hls₂ hafter rfl
      refine ⟨ofText (textOf s ls₁) ++ Lexeme.marker .generation raw :: lsG, m :: gms, ?_, ?_, ?_, ?_⟩
      · refine lexedFor_ofText_append.2 ⟨?_, .marker hraw hlsG⟩
        rw [textOf_cons, htext]
        exact hclear
      · simp [htext]
      · rw [markersFrom_ofText_append]
        exact markersFrom_marker.2 ⟨m, gms, by simpa [htext] using hm, hgms, rfl⟩
      · rw [Marker.scanGaps, bind_eq_ok_iff]
        refine ⟨before, (scan_eq_ok_iff (s := s) (f := .edit) heo hec
          (by rw [ht, textOf_append, ← List.append_assoc]) rfl (by simp [hopenAt])).2
            ⟨ls₁, hls₁, rfl, by simpa using hbefore⟩, bind_eq_ok_iff.2 ⟨after, ?_, rfl⟩⟩
        rw [hcloseEnd]
        exact hscan

include hgo hgc heo hec in
/-- **The markers of a text are those of a lexing of it**, and a text has markers if one of its
lexings has readable headers throughout. -/
theorem scanAll_eq_ok_iff {t : Text} {ms : List Marker} :
    Marker.scanAll t s = .ok ms ↔
      ∃ ls, Lexed s ls ∧ textOf s ls = t ∧ markersFrom s [] ls [] = some ms := by
  have hscan := fun gms => @scan_eq_ok_iff s .generation hgo hgc t [] t [] 0 t.length gms
    (by simp) rfl (by simp)
  rw [Marker.scanAll, bind_eq_ok_iff]
  constructor
  · rintro ⟨gms, hgms, hms⟩
    obtain ⟨lsG, hlsG, rfl, hread⟩ := (hscan gms).1 hgms
    exact exists_lexed_of_scanGaps heo hec rfl hlsG hread hms
  · rintro ⟨ls, hls, rfl, hms⟩
    obtain ⟨lsG, gms, hlsG, htext, hgms, h⟩ := scanGaps_of_lexed heo hec rfl hls hms
    exact ⟨gms, (hscan gms).2 ⟨lsG, hlsG, htext, hgms⟩, h⟩

/-- Plain texts are lexed as bytes. -/
theorem lexed_ofText_iff {t : Text} : Lexed s (ofText t) ↔ t.Plain s := by
  have hno : ∀ raw, marker .generation raw ∉ ofText t := by simp [ofText]
  rw [← List.append_nil (ofText t), lexed_append_iff hno rfl, lexedFor_ofText, textOf_ofText]
  constructor
  · rintro ⟨hedit, hgeneration, -⟩ (_ | _)
    · exact hgeneration
    · exact hedit
  · exact fun h => ⟨h .edit, h .generation, .nil⟩

end Regen.Lexeme
