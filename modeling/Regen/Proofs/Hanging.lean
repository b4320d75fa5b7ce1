import Regen.Proofs.Scanning

/-!
# Lexemes behind a margin

A text that becomes the body of a block of whole lines is indented: a margin is put in front of each of
its lines. What that does to the markers in it can be said lexeme by lexeme (`Lexeme.hung`). If tokens
hold no blanks, no token appears at a margin and none is torn apart by one, so the indented text is
lexed as the text was (`Lexed.hung`), and every marker in it keeps its header, be it on one line or on
several, since the lead of the marker and the lines of its header get the same margin
(`read?_hang`).
-/

namespace Regen

open Text (newline Clear Solid IsGap)

/-- **Solid settings**: no opener and no closer holds a blank. -/
structure Settings.Solid (s : Settings) : Prop where
  /-- No opener holds a blank. -/
  opener (f : Family) : Text.Solid (s.tokens f).opener
  /-- No closer holds a blank. -/
  closer (f : Family) : Text.Solid (s.tokens f).closer

/-- The standard settings are solid. -/
theorem Settings.solid_standard : Settings.standard.Solid :=
  ⟨fun f => by cases f <;> decide +kernel, fun f => by cases f <;> decide +kernel⟩

namespace Text

variable {token margin : Text}

theorem IsGap.of_isIndent {b : UInt8} (h : isIndent b) : IsGap b := by
  rcases isIndent_iff.1 h with rfl | rfl
  · exact .inl rfl
  · exact .inr (.inl rfl)

/-- A solid token lies on one line. -/
theorem Solid.newline_notMem (h : Solid token) : newline ∉ token := fun hn =>
  h _ hn (.inr (.inr rfl))

/-- A token on one line starts a text exactly if it starts the text with hanging lines. -/
theorem prefix_hang_iff (margin : Text) (h : newline ∉ token) (t : Text) : token <+: hang margin t ↔ token <+: t := by
  induction t generalizing token with
  | nil => rfl
  | cons b t ih =>
    cases token with
    | nil => simp
    | cons c token =>
      obtain ⟨hc, hrest⟩ := not_or.1 (mt List.mem_cons.2 h)
      rw [hang_cons]
      by_cases hb : b = newline
      · rw [if_pos hb, List.cons_append, List.cons_prefix_cons, List.cons_prefix_cons, hb]
        exact ⟨fun h => absurd h.1.symm hc, fun h => absurd h.1.symm hc⟩
      · rw [if_neg hb, List.singleton_append, List.cons_prefix_cons, List.cons_prefix_cons,
          ih hrest]

/-- A solid token that starts nowhere still starts nowhere when the lines hang behind a margin. -/
theorem Clear.hang (htoken : Solid token) (hne : token ≠ []) (hmargin : ∀ b ∈ margin, isIndent b)
    {x y : Text} (h : Clear token x y) : Clear token (Text.hang margin x) (Text.hang margin y) := by
  induction x with
  | nil => trivial
  | cons b x ih =>
    rw [hang_cons, clear_append]
    refine ⟨?_, ih h.2⟩
    by_cases hb : b = newline
    · rw [if_pos hb]
      refine clear_of_isGap htoken hne fun c hc => ?_
      rcases List.mem_cons.1 hc with rfl | hc
      · exact .inr (.inr rfl)
      · exact .of_isIndent (hmargin c hc)
    · rw [if_neg hb]
      refine ⟨fun hp => h.1 ((prefix_hang_iff margin htoken.newline_notMem _).1 ?_),
        trivial⟩
      rwa [hang_cons, if_neg hb, hang_append]

/-- A solid token that starts nowhere in a text starts nowhere in it when it is indented. -/
theorem Clear.indent (htoken : Solid token) (hne : token ≠ []) (hmargin : ∀ b ∈ margin, isIndent b)
    {t : Text} (h : Clear token t []) : Clear token (Text.indent margin t) [] :=
  (clear_append ..).2 ⟨clear_of_isGap htoken hne fun b hb => .of_isIndent (hmargin b hb),
    h.hang htoken hne hmargin⟩

/-- A solid token starts nowhere in a text if it starts nowhere in its lines. -/
theorem clear_iff_lines (htoken : Solid token) (hne : token ≠ []) (t : Text) :
    Clear token t [] ↔ ∀ line ∈ lines t, Clear token line [] := by
  induction t using line_induction with
  | last t ht => rw [lines_of_notMem ht, List.forall_mem_singleton]
  | more line rest hline ih =>
    have hseam : Clear token line [] ↔ Clear token line (newline :: rest) :=
      ⟨fun h => h.append_of_seam htoken (.inr (.inr (.inr ⟨newline, rfl, .inr (.inr rfl)⟩))),
        fun h => Clear.of_append h⟩
    have hnewline : Clear token [newline] (rest ++ []) :=
      clear_of_isGap htoken hne (by simp [IsGap])
    rw [lines_append_newline hline, List.forall_mem_cons, ← ih, clear_append, List.append_nil, ← hseam,
      ← List.singleton_append, clear_append]
    exact and_congr_right fun _ => and_iff_right hnewline

/-- A solid token that starts nowhere in a text starts nowhere in it when its indentation is taken
off. -/
theorem Clear.dedent (htoken : Solid token) (hne : token ≠ []) (column : Nat) {t : Text}
    (h : Clear token t []) : Clear token (Text.dedent column t) [] := by
  rw [clear_iff_lines htoken hne] at h ⊢
  intro line hline
  have hlines : ∀ l ∈ (lines t).map (dedentLine column), newline ∉ l := by
    simp only [List.mem_map]
    rintro _ ⟨l, hl, rfl⟩ hmem
    exact newline_notMem_of_mem_lines hl (List.mem_of_mem_drop hmem)
  rw [Text.dedent, lines_ofLines hlines (by simpa using lines_ne_nil t)] at hline
  obtain ⟨l, hl, rfl⟩ := List.mem_map.1 hline
  have hsplit := h l hl
  rw [← List.take_append_drop ((l.take column).takeWhile isIndent).length l, clear_append] at hsplit
  exact hsplit.2

end Text

namespace Lexeme

variable {s : Settings} {margin : Text}

/-- A lexeme whose lines hang behind a margin. -/
def hang (margin : Text) : Lexeme → List Lexeme
  | byte b => ofText (Text.hang margin [b])
  | marker f raw => [marker f (Text.hang margin raw)]

/-- **Lexemes whose lines hang behind a margin**, all but the first. -/
def hung (margin : Text) (ls : List Lexeme) : List Lexeme := ls.flatMap (hang margin)

@[simp] theorem hung_nil (margin : Text) : hung margin [] = [] := rfl

@[simp] theorem hung_cons (margin : Text) (l : Lexeme) (ls : List Lexeme) :
    hung margin (l :: ls) = hang margin l ++ hung margin ls := rfl

/-- Lexemes hang behind an empty margin as they are. -/
@[simp] theorem hung_of_nil (ls : List Lexeme) : hung [] ls = ls := by
  have htext : ∀ t : Text, Text.hang [] t = t := by
    intro t
    induction t with
    | nil => rfl
    | cons b t ih =>
      rw [Text.hang_cons, ih]
      by_cases hb : b = newline <;> simp [hb]
  have hlexeme : ∀ l, hang [] l = [l] := by
    rintro (b | ⟨f, raw⟩)
    · rw [hang, htext]
      rfl
    · rw [hang, htext]
  induction ls with
  | nil => rfl
  | cons l ls ih => rw [hung_cons, hlexeme, ih, List.singleton_append]

/-- The text of a marker hangs as its header does. -/
theorem text_hang (hs : s.Solid) (f : Family) (raw : Text) :
    text s (marker f (Text.hang margin raw)) = Text.hang margin (text s (marker f raw)) := by
  rw [text, text, Text.hang_append, Text.hang_append,
    Text.hang_of_notMem (hs.opener f).newline_notMem, Text.hang_of_notMem (hs.closer f).newline_notMem]

/-- The text of hanging lexemes. -/
theorem textOf_hung (hs : s.Solid) (ls : List Lexeme) :
    textOf s (hung margin ls) = Text.hang margin (textOf s ls) := by
  induction ls with
  | nil => rfl
  | cons l ls ih =>
    rw [hung_cons, textOf_append, ih, textOf_cons, Text.hang_append]
    cases l with
    | byte b => simp [hang]
    | marker f raw => simp [hang, text_hang hs]

/-- The stretch of hanging lexemes. -/
theorem stretch_hung (hs : s.Solid) (ls : List Lexeme) :
    stretch s (hung margin ls) = Text.hang margin (stretch s ls) := by
  have hbytes : ∀ t ls', stretch s (ofText t ++ ls') = t ++ stretch s ls' := by
    intro t ls'
    induction t with
    | nil => rfl
    | cons b t ih => simp [stretch, ih]
  induction ls with
  | nil => rfl
  | cons l ls ih =>
    rcases l with b | ⟨_ | _, raw⟩
    · rw [hung_cons, hang, hbytes, ih, stretch, ← Text.hang_append, List.singleton_append]
    · rfl
    · rw [hung_cons, hang, List.singleton_append, stretch, stretch, ih, text_hang hs,
        Text.hang_append]

/-- **A lexed text stays lexed when it is indented.** -/
theorem Lexed.hung (hs : s.Solid) (husable : ∀ f, (s.tokens f).opener ≠ [] ∧ (s.tokens f).closer ≠ [])
    (hmargin : ∀ b ∈ margin, Text.isIndent b) {ls : List Lexeme} (h : Lexed s ls) :
    Lexed s (Lexeme.hung margin ls) := by
  have hcloser : ∀ {f raw}, Clear (s.tokens f).closer raw (s.tokens f).closer →
      Clear (s.tokens f).closer (Text.hang margin raw) (s.tokens f).closer := by
    intro f raw hraw
    have h := hraw.hang (hs.closer f) (husable f).2 hmargin
    rwa [Text.hang_of_notMem (hs.closer f).newline_notMem] at h
  induction h with
  | nil => exact .nil
  | @byte b ls hgeneration hedit _ ih =>
    rw [hung_cons, hang]
    by_cases hb : b = newline
    · -- only blanks are put in, and they keep apart what stands on either side
      have hgap : ∀ c ∈ newline :: margin, IsGap c := by
        rintro c (_ | ⟨_, hc⟩)
        · exact .inr (.inr rfl)
        · exact .of_isIndent (hmargin c hc)
      have hblank : Text.hang margin [b] = newline :: margin := by
        rw [Text.hang_cons, if_pos hb, Text.hang_nil, List.append_nil]
      rw [hblank]
      refine (lexed_ofText_iff.2 fun f => Text.clear_of_isGap (hs.opener f) (husable f).1 hgap).append
        (hs.opener .generation) (hs.opener .edit) ih (.inr (.inr (.inl ?_)))
      rw [textOf_ofText]
      obtain ⟨c, hc⟩ := Option.ne_none_iff_exists'.1
        (mt List.getLast?_eq_none_iff.1 (List.cons_ne_nil newline margin))
      exact ⟨c, hc, hgap c (List.mem_of_getLast? hc)⟩
    · rw [Text.hang_of_notMem (by simpa using Ne.symm hb)]
      show Lexed s (Lexeme.byte b :: Lexeme.hung margin ls)
      refine .byte (fun hp => hgeneration ?_) (fun hp => hedit ?_) ih
      · rw [textOf_hung hs] at hp
        refine (Text.prefix_hang_iff margin (hs.opener .generation).newline_notMem _).1 ?_
        rwa [Text.hang_cons, if_neg hb]
      · rw [stretch_hung hs] at hp
        refine (Text.prefix_hang_iff margin (hs.opener .edit).newline_notMem _).1 ?_
        rwa [Text.hang_cons, if_neg hb]
  | generation hraw _ ih => exact .generation (hcloser (f := .generation) hraw) ih
  | @edit raw ls hraw hgeneration _ ih =>
    refine .edit (hcloser (f := .edit) hraw) ?_ ih
    show Clear _ _ (textOf s (Lexeme.hung margin ls))
    rw [text_hang hs, textOf_hung hs]
    exact hgeneration.hang (hs.opener .generation) (husable .generation).1 hmargin

end Lexeme

end Regen
