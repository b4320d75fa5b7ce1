import Regen.Proofs.Frame
import Regen.Output

/-!
# Line ends of files

A text is read with plain line feeds and written with the line ends of its file, and carriage returns
that stand elsewhere, or several of them before a line feed, are left as they are. Each of the two
conversions undoes the other one, but not for the same texts.

* **Reading what was written** gives back every text (`Text.normalizeNewlines_withNewline`): of the
  carriage returns before a line feed just the last one is dropped, which is the one that was written.
* **Writing what was read** gives back the file if its line ends agree, so that every line feed
  follows a carriage return or none does (`Text.inFile_normalizeNewlines`).

A line feed is written as the same bytes wherever it stands. So a text is written piece by piece, and
a stretch of it takes up a stretch of the file (`Text.inFile_patch`).
-/

namespace Regen.Text

variable {t u v : Text} {mark? : Option Text}

/-! ## Reading and writing line ends -/

/-- Every line feed follows a carriage return. -/
def EndsReturned (t : Text) : Prop :=
  ∀ u v, t = u ++ newline :: v → u.getLast? = some carriageReturn

/-- No line feed follows a carriage return. -/
def EndsPlain (t : Text) : Prop :=
  ∀ u v, t = u ++ newline :: v → u.getLast? ≠ some carriageReturn

/-- Line feeds are written one by one. -/
theorem withNewline_crlf_cons (b : UInt8) (t : Text) :
    withNewline (b :: t) "\r\n" =
      if b = newline then carriageReturn :: newline :: withNewline t "\r\n"
      else b :: withNewline t "\r\n" := by
  show (if b = newline then ofString "\r\n" else [b]) ++ withNewline t "\r\n" = _
  split <;> rfl

/-- A text is written piece by piece. -/
@[simp] theorem withNewline_append (t u mark : Text) :
    (t ++ u).withNewline mark = t.withNewline mark ++ u.withNewline mark := List.flatMap_append

/-- A carriage return before a line feed is dropped. -/
@[simp] theorem normalizeNewlines_crlf (t : Text) :
    normalizeNewlines (carriageReturn :: newline :: t) = newline :: t.normalizeNewlines := by
  have hne : newline ≠ carriageReturn := by decide
  rw [normalizeNewlines, if_pos ⟨rfl, rfl⟩, normalizeNewlines, if_neg fun h => hne h.1]

/-- Any other byte is read as it is. -/
theorem normalizeNewlines_cons {b : UInt8} (h : b = carriageReturn → t.head? ≠ some newline) :
    normalizeNewlines (b :: t) = b :: t.normalizeNewlines := by
  rw [normalizeNewlines, if_neg fun hb => h hb.1 hb.2]

/-- No written text begins with a bare line feed. -/
theorem head?_withNewline_crlf (t : Text) : (withNewline t "\r\n").head? ≠ some newline := by
  cases t with
  | nil => simp [withNewline]
  | cons b t =>
    rw [withNewline_crlf_cons]
    by_cases hb : b = newline
    · simp [hb, carriageReturn, newline]
    · simp [hb]

/-- **A text is read as it was written**, whatever carriage returns it has. -/
theorem normalizeNewlines_withNewline (t : Text) :
    normalizeNewlines (withNewline t "\r\n") = t := by
  induction t with
  | nil => rfl
  | cons b t ih =>
    rw [withNewline_crlf_cons]
    by_cases hb : b = newline
    · rw [if_pos hb, normalizeNewlines_crlf, ih, hb]
    · rw [if_neg hb, normalizeNewlines_cons fun _ => head?_withNewline_crlf t, ih]

/-- Behind a piece that ends in no carriage return, every line feed still follows one. -/
theorem EndsReturned.of_append (h : EndsReturned (u ++ v))
    (hu : u.getLast? = some carriageReturn → v.head? ≠ some newline) : EndsReturned v := by
  rintro x y rfl
  have hlast := h (u ++ x) y (by simp)
  cases x with
  | nil => exact absurd rfl (hu (by simpa using hlast))
  | cons b x =>
    rw [List.getLast?_append_cons] at hlast
    exact hlast

/-- Behind any piece, still no line feed follows a carriage return. -/
theorem EndsPlain.of_append (h : EndsPlain (u ++ v)) : EndsPlain v := by
  rintro x y rfl hx
  refine h (u ++ x) y (by simp) ?_
  rw [List.getLast?_append, hx]
  rfl

/-- A carriage return at the front is not followed by a line feed, if none is. -/
theorem EndsPlain.head?_ne {b : UInt8} (h : EndsPlain (b :: t)) (hb : b = carriageReturn) :
    t.head? ≠ some newline := by
  intro ht
  obtain ⟨line, rfl⟩ := List.head?_eq_some_iff.1 ht
  exact h [b] line rfl (congrArg some hb)

/-- **A text is written as it was read** where every line feed follows a carriage return. -/
theorem EndsReturned.withNewline_normalizeNewlines :
    ∀ {t : Text}, EndsReturned t → withNewline (normalizeNewlines t) "\r\n" = t
  | [], _ => rfl
  | b :: rest, h => by
    by_cases hb : b = carriageReturn ∧ rest.head? = some newline
    · obtain ⟨rfl, hrest⟩ := hb
      obtain ⟨line, rfl⟩ := List.head?_eq_some_iff.1 hrest
      have hline : EndsReturned line := h.of_append (u := [carriageReturn, newline]) (nofun)
      rw [normalizeNewlines_crlf, withNewline_crlf_cons, if_pos rfl,
        hline.withNewline_normalizeNewlines]
    · have hb : b = carriageReturn → rest.head? ≠ some newline := fun h h' => hb ⟨h, h'⟩
      have hrest : EndsReturned rest := h.of_append (u := [b]) (by simpa using hb)
      have hne : b ≠ newline := by
        rintro rfl
        exact absurd (h [] rest rfl) (by simp)
      rw [normalizeNewlines_cons hb, withNewline_crlf_cons, if_neg hne,
        hrest.withNewline_normalizeNewlines]
termination_by t => t.length

/-- Every line feed that is written follows a carriage return. -/
theorem endsReturned_withNewline (t : Text) : EndsReturned (withNewline t "\r\n") := by
  induction t with
  | nil => exact fun u v huv => absurd huv (by simp [withNewline])
  | cons b t ih =>
    intro u v huv
    rw [withNewline_crlf_cons] at huv
    by_cases hb : b = newline
    · rw [if_pos hb] at huv
      match u, huv with
      | [_], huv => rw [← (List.cons.inj huv).1]; rfl
      | _ :: _ :: u, huv =>
        have hlast := ih u v (List.cons.inj (List.cons.inj huv).2).2
        rw [List.getLast?_cons, List.getLast?_cons, hlast]
        rfl
    · rw [if_neg hb] at huv
      match u, huv with
      | [], huv => exact absurd (List.cons.inj huv).1 hb
      | _ :: u, huv =>
        rw [List.getLast?_cons, ih u v (List.cons.inj huv).2]
        rfl

/-- **Whether every line feed follows a carriage return is told** by writing what was read. -/
theorem endsReturned_iff : EndsReturned t ↔ withNewline (normalizeNewlines t) "\r\n" = t :=
  ⟨EndsReturned.withNewline_normalizeNewlines, fun h => h ▸ endsReturned_withNewline _⟩

instance : Decidable (EndsReturned t) := decidable_of_iff _ endsReturned_iff.symm

/-- Where no line feed follows a carriage return, reading changes nothing. -/
theorem EndsPlain.normalizeNewlines_eq (h : EndsPlain t) : normalizeNewlines t = t := by
  induction t with
  | nil => rfl
  | cons b rest ih =>
    rw [normalizeNewlines_cons h.head?_ne, ih (h.of_append (u := [b]))]

/-- **What is looked for when a file is read**: whether some line feed follows a carriage return. -/
theorem hasCarriageReturns_eq_false_iff : hasCarriageReturns t = false ↔ EndsPlain t := by
  induction t with
  | nil => simp [hasCarriageReturns, EndsPlain]
  | cons b rest ih =>
    rw [hasCarriageReturns, Bool.or_eq_false_iff, ih]
    constructor
    · rintro ⟨hb, hrest⟩ u v huv hu
      cases u with
      | nil => simp at hu
      | cons b' u =>
        obtain ⟨rfl, rfl⟩ := List.cons.inj huv
        cases u with
        | nil => simp_all
        | cons b' u => exact hrest (b' :: u) v rfl (by simpa using hu)
    · intro h
      refine ⟨?_, h.of_append (u := [b])⟩
      rw [Bool.and_eq_false_iff, beq_eq_false_iff_ne, beq_eq_false_iff_ne, ← not_and_or]
      exact fun hb => h.head?_ne hb.1 hb.2

instance : Decidable (EndsPlain t) := decidable_of_iff _ hasCarriageReturns_eq_false_iff

/-- **A file whose line ends agree is written as it was read**. -/
theorem inFile_normalizeNewlines (h : EndsReturned t ∨ EndsPlain t) :
    inFile (if t.hasCarriageReturns then some ("\r\n" : Text) else none) t.normalizeNewlines = t := by
  cases hreturns : t.hasCarriageReturns with
  | false =>
    exact (hasCarriageReturns_eq_false_iff.1 hreturns).normalizeNewlines_eq
  | true =>
    have hplain : ¬ EndsPlain t := fun h => by simp [hasCarriageReturns_eq_false_iff.2 h] at hreturns
    exact (h.resolve_right hplain).withNewline_normalizeNewlines

/-! ## Stretches of files -/

/-- A text is written piece by piece. -/
theorem inFile_append (mark? : Option Text) (t u : Text) :
    inFile mark? (t ++ u) = inFile mark? t ++ inFile mark? u := by
  cases mark? with
  | none => rfl
  | some mark => exact withNewline_append t u mark

/-- Where an offset of a text comes to stand in its file. -/
def offsetInFile (mark? : Option Text) (t : Text) (offset : Nat) : Nat :=
  (inFile mark? (t.take offset)).length

/-- The start of a text is the start of its file. -/
@[simp] theorem offsetInFile_zero (mark? : Option Text) (t : Text) : offsetInFile mark? t 0 = 0 := by
  cases mark? <;> rfl

/-- A file splits where its text does. -/
theorem inFile_eq_append (mark? : Option Text) (t : Text) (i : Nat) :
    inFile mark? t = inFile mark? (t.take i) ++ inFile mark? (t.drop i) := by
  rw [← inFile_append, List.take_append_drop]

/-- What stands in front of an offset. -/
theorem inFile_take (mark? : Option Text) (t : Text) (i : Nat) :
    inFile mark? (t.take i) = (inFile mark? t).take (offsetInFile mark? t i) := by
  rw [inFile_eq_append mark? t i, offsetInFile, List.take_left]

/-- What stands behind an offset. -/
theorem inFile_drop (mark? : Option Text) (t : Text) (i : Nat) :
    inFile mark? (t.drop i) = (inFile mark? t).drop (offsetInFile mark? t i) := by
  rw [inFile_eq_append mark? t i, offsetInFile, List.drop_left]

/-- No offset comes to stand behind the end. -/
theorem offsetInFile_le_length (mark? : Option Text) (t : Text) (i : Nat) :
    offsetInFile mark? t i ≤ (inFile mark? t).length := by
  rw [offsetInFile, inFile_take]
  exact List.length_take_le' _ _

/-- Offsets keep their order. -/
theorem offsetInFile_le_offsetInFile (mark? : Option Text) (t : Text) {i j : Nat} (h : i ≤ j) :
    offsetInFile mark? t i ≤ offsetInFile mark? t j := by
  have hle := offsetInFile_le_length mark? (t.take j) i
  rwa [offsetInFile, List.take_take, Nat.min_eq_left h] at hle

/-- **A stretch takes up a stretch of the file.** -/
theorem inFile_extract (mark? : Option Text) (t : Text) (i j : Nat) :
    inFile mark? (t.extract i j)
      = (inFile mark? t).extract (offsetInFile mark? t i) (offsetInFile mark? t j) := by
  simp only [List.extract_eq_take_drop, ← List.drop_take]
  rw [inFile_drop, inFile_take]
  rcases Nat.le_total i j with h | h
  · rw [show offsetInFile mark? (t.take j) i = offsetInFile mark? t i by
      rw [offsetInFile, List.take_take, Nat.min_eq_left h, offsetInFile]]
  · rw [List.drop_of_length_le, List.drop_of_length_le]
    · exact (List.length_take_le _ _).trans (offsetInFile_le_offsetInFile mark? t h)
    · rw [← inFile_take]
      rw [offsetInFile, List.take_take, Nat.min_eq_right h]

/-- The stretch of the file that a stretch takes up. -/
def spanInFile (mark? : Option Text) (t : Text) (s : Span) : Span :=
  ⟨offsetInFile mark? t s.start, offsetInFile mark? t s.stop⟩

/-- **Replacing stretches of a text replaces the stretches that they take up in the file.** -/
theorem inFile_patch (mark? : Option Text) (t : Text) (offset : Nat) (spans : List (Span × Text)) :
    inFile mark? (t.patch offset spans)
      = (inFile mark? t).patch (offsetInFile mark? t offset)
          (spans.map fun p => (spanInFile mark? t p.1, inFile mark? p.2)) := by
  induction spans generalizing offset with
  | nil => exact inFile_drop mark? t offset
  | cons p spans ih =>
    rw [List.map_cons, patch, patch, inFile_append, inFile_append, inFile_extract, ih]
    rfl

end Regen.Text
