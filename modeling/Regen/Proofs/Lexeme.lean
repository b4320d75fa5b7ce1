import Regen.Document
import Regen.Proofs.Heading

/-!
# Texts cut at their markers

A text that is read falls into *lexemes*: the markers, each with its header as it is written, and
the single bytes between them. Offsets are gone in this view, and a text that is put together from
others is lexed by the concatenation of their lexemes. What makes a list of lexemes the one that
a scan finds is said by `Lexed`, lexeme by lexeme: no token starts at a byte outside of markers,
and a header ends with the first closer. Generation markers are looked for in the whole text, edit
markers only up to the next generation marker, in the *stretch* of the text before it.

`markersFrom` turns lexemes back into markers with their offsets, given the text in front of them
and behind them. It fails if a header cannot be read.
-/

namespace Regen

/-- A piece of a text cut at its markers. -/
inductive Lexeme where
  /-- A byte outside of all markers. -/
  | byte (b : UInt8)
  /-- A marker with its header as it is written. -/
  | marker (family : Family) (raw : Text)
  deriving DecidableEq

/-- The marker as it stands behind another text. -/
def Marker.behind (before : Text) (m : Marker) : Marker :=
  { m with
    lead := Text.lastLine before
    openAt := before.length
    closeEnd := before.length + (m.closeEnd - m.openAt) }

/-- **A plain text**: no marker starts in it. -/
def Text.Plain (s : Settings) (t : Text) : Prop := ∀ f, Text.Clear (s.tokens f).opener t []

namespace Lexeme

variable (s : Settings)

/-- The bytes of a lexeme. -/
def text : Lexeme → Text
  | byte b => [b]
  | marker f raw => (s.tokens f).opener ++ raw ++ (s.tokens f).closer

/-- The text that lexemes make up. -/
def textOf (ls : List Lexeme) : Text := ls.flatMap (text s)

@[simp] theorem text_byte (b : UInt8) : text s (byte b) = [b] := rfl

@[simp] theorem textOf_nil : textOf s [] = [] := rfl

@[simp] theorem textOf_cons (l : Lexeme) (ls : List Lexeme) :
    textOf s (l :: ls) = l.text s ++ textOf s ls := rfl

@[simp] theorem textOf_append (ls ls' : List Lexeme) :
    textOf s (ls ++ ls') = textOf s ls ++ textOf s ls' := List.flatMap_append

/-- The lexemes of a text without markers. -/
def ofText (t : Text) : List Lexeme := t.map byte

@[simp] theorem ofText_nil : ofText [] = [] := rfl

@[simp] theorem ofText_cons (b : UInt8) (t : Text) : ofText (b :: t) = byte b :: ofText t := rfl

@[simp] theorem ofText_append (t u : Text) : ofText (t ++ u) = ofText t ++ ofText u :=
  List.map_append

@[simp] theorem textOf_ofText (t : Text) : textOf s (ofText t) = t := by
  induction t with
  | nil => rfl
  | cons b t ih => simp [ih]

/-- **The stretch of a text before its first generation marker.** -/
def stretch : List Lexeme → Text
  | [] => []
  | byte b :: ls => b :: stretch ls
  | marker .generation _ :: _ => []
  | marker .edit raw :: ls => text s (marker .edit raw) ++ stretch ls

/-- The stretch is the front of the text. -/
theorem stretch_isPrefix (ls : List Lexeme) : stretch s ls <+: textOf s ls := by
  induction ls with
  | nil => simp [stretch]
  | cons l ls ih =>
    rcases l with b | ⟨_ | _, raw⟩
    · simpa [stretch] using ih
    · simp [stretch]
    · rw [stretch, textOf_cons]
      exact (List.prefix_append_right_inj _).2 ih

/-- **Lexed texts**: no token starts at a byte outside of markers, nor a generation marker inside
an edit marker, and the first closer ends a header. -/
inductive Lexed : List Lexeme → Prop
  /-- The empty text. -/
  | nil : Lexed []
  /-- A byte at which no marker starts. -/
  | byte {b : UInt8} {ls : List Lexeme}
      (hgeneration : ¬ s.generation.opener <+: b :: textOf s ls)
      (hedit : ¬ s.edit.opener <+: b :: stretch s ls) (hrest : Lexed ls) :
      Lexed (byte b :: ls)
  /-- A generation marker. -/
  | generation {raw : Text} {ls : List Lexeme}
      (hcloser : Text.Clear s.generation.closer raw s.generation.closer) (hrest : Lexed ls) :
      Lexed (marker .generation raw :: ls)
  /-- An edit marker. -/
  | edit {raw : Text} {ls : List Lexeme}
      (hcloser : Text.Clear s.edit.closer raw s.edit.closer)
      (hgeneration : Text.Clear s.generation.opener (text s (marker .edit raw)) (textOf s ls))
      (hrest : Lexed ls) :
      Lexed (marker .edit raw :: ls)

/-- The marker that is written with a header in front of and behind the given texts, if the header
can be read. -/
def read? (before : Text) (f : Family) (raw after : Text) : Option Marker :=
  (Marker.headerLines? (s.tokens f) (Text.lastLine before) raw
    ((s.tokens f).closer ++ after)).map fun headerLines =>
    { family := f, tokens := s.tokens f, lead := Text.lastLine before
      openAt := before.length
      closeEnd := before.length + (text s (marker f raw)).length
      headerLines }

/-- The markers among lexemes that stand between the given texts, if all headers can be read. -/
def markersFrom (before : Text) : List Lexeme → (after : Text) → Option (List Marker)
  | [], _ => some []
  | byte b :: ls, after => markersFrom (before ++ [b]) ls after
  | marker f raw :: ls, after => do
    let m ← read? s before f raw (textOf s ls ++ after)
    let ms ← markersFrom (before ++ text s (marker f raw)) ls after
    return m :: ms

variable {s}

/-- Markers are read one after the other. -/
theorem markersFrom_marker {before after raw : Text} {f : Family} {ls : List Lexeme}
    {ms : List Marker} :
    markersFrom s before (marker f raw :: ls) after = some ms ↔
      ∃ m ms', read? s before f raw (textOf s ls ++ after) = some m ∧
        markersFrom s (before ++ text s (marker f raw)) ls after = some ms' ∧ ms = m :: ms' := by
  simp only [markersFrom, Option.bind_eq_bind, Option.bind_eq_some_iff, Option.pure_def,
    Option.some.injEq]
  constructor
  · rintro ⟨m, hm, ms', hms, rfl⟩
    exact ⟨m, ms', hm, hms, rfl⟩
  · rintro ⟨m, ms', hm, hms, rfl⟩
    exact ⟨m, hm, ms', hms, rfl⟩

/-- **Lexemes are read part by part**, each part between the texts of its neighbours. -/
theorem markersFrom_append {before after : Text} {ls ls' : List Lexeme} {ms : List Marker} :
    markersFrom s before (ls ++ ls') after = some ms ↔
      ∃ ms₁ ms₂, markersFrom s before ls (textOf s ls' ++ after) = some ms₁ ∧
        markersFrom s (before ++ textOf s ls) ls' after = some ms₂ ∧ ms = ms₁ ++ ms₂ := by
  induction ls generalizing before ms with
  | nil => simp [markersFrom]
  | cons l ls ih =>
    cases l with
    | byte b => simp [markersFrom, ih]
    | marker f raw =>
      rw [List.cons_append, markersFrom_marker]
      constructor
      · rintro ⟨m, ms', hm, hms, rfl⟩
        obtain ⟨ms₁, ms₂, h₁, h₂, rfl⟩ := ih.1 hms
        refine ⟨m :: ms₁, ms₂, markersFrom_marker.2 ⟨m, ms₁, ?_, h₁, rfl⟩, ?_, rfl⟩
        · simpa using hm
        · simpa using h₂
      · rintro ⟨ms₁, ms₂, h₁, h₂, rfl⟩
        obtain ⟨m, ms', hm, hms, rfl⟩ := markersFrom_marker.1 h₁
        refine ⟨m, ms' ++ ms₂, ?_, ih.2 ⟨ms', ms₂, hms, ?_, rfl⟩, rfl⟩
        · simpa using hm
        · simpa using h₂

/-- A text without markers has none. -/
@[simp] theorem markersFrom_ofText (before t after : Text) :
    markersFrom s before (ofText t) after = some [] := by
  induction t generalizing before with
  | nil => rfl
  | cons b t ih => exact ih _

/-- Bytes outside of markers only move the markers behind them. -/
@[simp] theorem markersFrom_ofText_append (before t after : Text) (ls : List Lexeme) :
    markersFrom s before (ofText t ++ ls) after = markersFrom s (before ++ t) ls after := by
  induction t generalizing before with
  | nil => simp
  | cons b t ih => simp [markersFrom, ih]

/-- Lexemes without a readable marker among them are bytes. -/
theorem eq_ofText_of_markersFrom {before after : Text} {ls : List Lexeme}
    (h : markersFrom s before ls after = some []) : ∃ t, ls = ofText t := by
  induction ls generalizing before with
  | nil => exact ⟨[], rfl⟩
  | cons l ls ih =>
    cases l with
    | byte b =>
      obtain ⟨t, rfl⟩ := ih h
      exact ⟨b :: t, rfl⟩
    | marker f raw =>
      obtain ⟨m, ms, -, -, hcons⟩ := markersFrom_marker.1 h
      cases hcons

/-- **Lexemes split at any of their markers.** -/
theorem exists_marker_of_markersFrom {before after : Text} {ls : List Lexeme}
    {ms₁ ms₂ : List Marker} {m : Marker}
    (h : markersFrom s before ls after = some (ms₁ ++ m :: ms₂)) :
    ∃ ls₁ f raw ls₂, ls = ls₁ ++ marker f raw :: ls₂ ∧
      markersFrom s before ls₁ (textOf s (marker f raw :: ls₂) ++ after) = some ms₁ ∧
      read? s (before ++ textOf s ls₁) f raw (textOf s ls₂ ++ after) = some m ∧
      markersFrom s (before ++ textOf s ls₁ ++ text s (marker f raw)) ls₂ after = some ms₂ := by
  induction ls generalizing before ms₁ with
  | nil => simp [markersFrom] at h
  | cons l ls ih =>
    cases l with
    | byte b =>
      obtain ⟨ls₁, f, raw, ls₂, rfl, h₁, hm, h₂⟩ := ih h
      exact ⟨byte b :: ls₁, f, raw, ls₂, rfl, h₁, by simpa using hm, by simpa using h₂⟩
    | marker f raw =>
      obtain ⟨m', ms', hm, hms, hcons⟩ := markersFrom_marker.1 h
      cases ms₁ with
      | nil =>
        obtain ⟨rfl, rfl⟩ := List.cons_eq_cons.1 hcons
        exact ⟨[], f, raw, ls, rfl, rfl, by simpa using hm, by simpa using hms⟩
      | cons m₁ ms₁ =>
        obtain ⟨rfl, rfl⟩ := List.cons_eq_cons.1 hcons
        obtain ⟨ls₁, f', raw', ls₂, rfl, h₁, hm', h₂⟩ := ih hms
        refine ⟨marker f raw :: ls₁, f', raw', ls₂, rfl, ?_, by simpa using hm', by simpa using h₂⟩
        exact markersFrom_marker.2 ⟨m₁, ms₁, by simpa using hm, h₁, rfl⟩

/-! ## Moved markers -/

/-- What follows a marker does not matter to it, if its opener lies on one line. -/
theorem read?_congr_after {before raw : Text} {f : Family}
    (hopener : Text.newline ∉ (s.tokens f).opener) (hcloser : (s.tokens f).closer ≠ [])
    (after after' : Text) : read? s before f raw after = read? s before f raw after' := by
  rw [read?, read?, Marker.headerLines?_congr_after hopener hcloser]

/-- What follows lexemes does not matter to the markers among them. -/
theorem markersFrom_congr_after (hopener : ∀ f, Text.newline ∉ (s.tokens f).opener)
    (hcloser : ∀ f, (s.tokens f).closer ≠ []) (before : Text) (ls : List Lexeme)
    (after after' : Text) : markersFrom s before ls after = markersFrom s before ls after' := by
  induction ls generalizing before with
  | nil => rfl
  | cons l ls ih =>
    cases l with
    | byte b => exact ih _
    | marker f raw =>
      rw [markersFrom, markersFrom, ih, read?_congr_after (hopener f) (hcloser f)]

/-- **A marker can be moved** behind any text if its header lies on one line, and otherwise behind any
text that has the same last line. -/
theorem read?_behind {before before' raw after : Text} {f : Family} {m : Marker}
    (hopener : Text.newline ∉ (s.tokens f).opener) (hcloser : (s.tokens f).closer ≠ [])
    (h : read? s before f raw after = some m)
    (hline : Text.newline ∈ raw → Text.lastLine before' = Text.lastLine before) (after' : Text) :
    read? s before' f raw after' = some (m.behind before') := by
  obtain ⟨lines, hlines, rfl⟩ := Option.map_eq_some_iff.1 h
  refine Option.map_eq_some_iff.2 ⟨lines, ?_, by simp [Marker.behind]⟩
  rw [← hlines, Marker.headerLines?_congr_after hopener hcloser _ _ after' after]
  by_cases hraw : Text.newline ∈ raw
  · rw [hline hraw]
  · exact Marker.headerLines?_congr_of_notMem _ _ _ _ (by simp [hopener, hraw])

/-! ## Parts of lexed texts -/

/-- The back part of a lexed text is lexed. -/
theorem Lexed.of_append_right {ls ls' : List Lexeme} (h : Lexed s (ls ++ ls')) : Lexed s ls' := by
  induction ls with
  | nil => exact h
  | cons l ls ih => cases h <;> exact ih ‹_›

/-- A stretch goes on into what follows unless a generation marker ends it. -/
theorem stretch_isPrefix_append (ls ls' : List Lexeme) :
    stretch s ls <+: stretch s (ls ++ ls') := by
  induction ls with
  | nil => simp [stretch]
  | cons l ls ih =>
    rcases l with b | ⟨_ | _, raw⟩
    · simpa [stretch] using ih
    · simp [stretch]
    · exact (List.prefix_append_right_inj _).2 ih

/-- The front part of a lexed text is lexed. -/
theorem Lexed.of_append_left {ls ls' : List Lexeme} (h : Lexed s (ls ++ ls')) : Lexed s ls := by
  induction ls with
  | nil => exact .nil
  | cons l ls ih =>
    cases h with
    | byte hgeneration hedit hrest =>
      refine .byte (fun hp => hgeneration ?_) (fun hp => hedit ?_) (ih hrest)
      · exact hp.trans (by simp [List.cons_prefix_cons])
      · exact hp.trans (List.cons_prefix_cons.2 ⟨rfl, stretch_isPrefix_append ls ls'⟩)
    | generation hcloser hrest => exact .generation hcloser (ih hrest)
    | edit hcloser hgeneration hrest =>
      refine .edit hcloser ?_ (ih hrest)
      rw [List.append_eq, textOf_append] at hgeneration
      exact hgeneration.of_append

/-- The stretch of two texts put together: that of the first one, if a generation marker ends it,
and otherwise all of the first one and the stretch of the second. -/
theorem stretch_append (ls ls' : List Lexeme) :
    stretch s (ls ++ ls') = stretch s ls ∨
      stretch s ls = textOf s ls ∧ stretch s (ls ++ ls') = textOf s ls ++ stretch s ls' := by
  induction ls with
  | nil => exact .inr ⟨rfl, rfl⟩
  | cons l ls ih =>
    rcases l with b | ⟨_ | _, raw⟩
    · simpa [stretch] using ih
    · exact .inl rfl
    · simpa [stretch] using ih

/-- **Lexed texts can be put together** if no opener runs from the one into the other. -/
theorem Lexed.append_of_severed {ls ls' : List Lexeme}
    (hsevered : ∀ f, Text.Severed (s.tokens f).opener (textOf s ls) (textOf s ls')) (h : Lexed s ls)
    (h' : Lexed s ls') : Lexed s (ls ++ ls') := by
  induction h with
  | nil => exact h'
  | @byte b ls hgeneration hedit _ ih =>
    refine .byte (fun hp => hgeneration ?_) (fun hp => hedit ?_)
      (ih fun f => Text.Severed.of_append_left (x := [b]) (hsevered f))
    · rw [List.append_eq, textOf_append, ← List.cons_append] at hp
      exact hsevered .generation _ (List.cons_ne_nil b _) List.suffix_rfl hp
    · rw [List.append_eq] at hp
      rcases stretch_append (s := s) ls ls' with hst | ⟨hall, hst⟩ <;> rw [hst] at hp
      · exact hp
      · -- the opener lies in the first text, which is a stretch to its end
        rw [hall]
        exact (hsevered .edit).of_isPrefix (stretch_isPrefix s ls') _ (List.cons_ne_nil b _)
          List.suffix_rfl hp
  | generation hcloser _ ih => exact .generation hcloser (ih fun f => (hsevered f).of_append_left)
  | @edit raw ls hcloser hgeneration _ ih =>
    refine .edit hcloser ?_ (ih fun f => (hsevered f).of_append_left)
    rw [List.append_eq, textOf_append]
    exact hgeneration.append_of_severed (hsevered .generation)

/-- Lexed texts can be put together at a seam, if openers hold no gap bytes. -/
theorem Lexed.append {ls ls' : List Lexeme} (hgen : Text.Solid s.generation.opener)
    (hed : Text.Solid s.edit.opener) (h : Lexed s ls) (h' : Lexed s ls')
    (hseam : Text.Seam (textOf s ls) (textOf s ls')) : Lexed s (ls ++ ls') :=
  h.append_of_severed (fun f => hseam.severed (by cases f <;> assumption)) h'

end Lexeme

end Regen
