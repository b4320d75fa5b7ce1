import Regen.Proofs.Leftmost
import Regen.Proofs.LineEnds
import Regen.Proofs.Reading

/-!
# Texts read with plain line ends

A text can be read as it is, or with plain line ends, the carriage returns before its line feeds dropped.
**A scan finds the same markers either way** (`Marker.scanAll_normalizeNewlines`), if no token holds a byte of a
line end and all headers read alike.

* **Lexemes.** A text falls into lexemes exactly if it does so with plain line ends, and the one list is the other
  without the carriage returns (`Lexeme.plain`): a token starts at the same places, since it neither begins with
  a carriage return that is dropped nor runs over one.
* **Offsets** move to the front by what is dropped. An offset of a marker has its place in the plain text, since
  no marker begins or ends inside a line end (`Text.ReadAt`).
* **Headers** are where the two readings can part. A carriage return at the end of a header line is a byte of
  that line: it can stand in the margin, where it is no blank, and it makes another word of an end word. A
  header that is safe from this reads alike (`Marker.ReadsPlain`).
-/

namespace Regen

open Text (newline carriageReturn)

/-! ## Clean cuts -/

namespace Text

variable {t u v x y token : Text}

/-- **A clean cut**: it does not go through a line end. -/
def CleanCut (u v : Text) : Prop := u.getLast? = some carriageReturn → v.head? ≠ some newline

/-- A token without a byte of a line end. -/
def Unbroken (token : Text) : Prop := carriageReturn ∉ token ∧ newline ∉ token

instance (token : Text) : Decidable (Unbroken token) := inferInstanceAs (Decidable (_ ∧ _))

/-- Behind anything that does not end in a carriage return a cut is clean. -/
theorem cleanCut_of_notMem (h : carriageReturn ∉ u) (v : Text) : CleanCut u v :=
  fun hu => absurd (List.mem_of_getLast? hu) h

/-- In front of anything that does not begin with a line feed a cut is clean. -/
theorem cleanCut_of_newline_notMem (u : Text) (h : newline ∉ v) : CleanCut u v :=
  fun _ hv => absurd (List.mem_of_mem_head? hv) h

/-- In front of less a cut is clean if it is so in front of more. -/
theorem CleanCut.of_append_right (h : CleanCut u (v ++ y)) : CleanCut u v := by
  intro hu hv
  exact h hu (by rw [List.head?_append, hv]; rfl)

/-- A cut behind a text that is not empty does not depend on what stands in front of it. -/
theorem CleanCut.append_left (h : CleanCut u v) (hu : u ≠ []) (x : Text) : CleanCut (x ++ u) v := by
  intro hx
  rw [List.getLast?_append_of_ne_nil _ hu] at hx
  exact h hx

/-- A carriage return is dropped if a line feed is next. -/
theorem normalizeNewlines_of_head? (h : t.head? = some newline) :
    normalizeNewlines (carriageReturn :: t) = t.normalizeNewlines := if_pos ⟨rfl, h⟩

/-- **Line ends are made plain piece by piece**, where the cut is clean. -/
theorem normalizeNewlines_append (h : CleanCut u v) :
    normalizeNewlines (u ++ v) = u.normalizeNewlines ++ v.normalizeNewlines := by
  induction u with
  | nil => rfl
  | cons b u ih =>
    have hu : CleanCut u v := fun hu => h (by rw [List.getLast?_cons, hu]; rfl)
    by_cases hb : b = carriageReturn ∧ (u ++ v).head? = some newline
    · obtain ⟨rfl, hhead⟩ := hb
      have hne : u ≠ [] := by
        rintro rfl
        exact h rfl hhead
      have huhead := hhead
      rw [List.head?_append_of_ne_nil _ hne] at huhead
      rw [List.cons_append, normalizeNewlines_of_head? hhead, normalizeNewlines_of_head? huhead, ih hu]
    · have hwhole : b = carriageReturn → (u ++ v).head? ≠ some newline := fun h h' => hb ⟨h, h'⟩
      rw [List.cons_append, normalizeNewlines_cons hwhole, ih hu, normalizeNewlines_cons, List.cons_append]
      intro hb hhead
      exact hwhole hb (by rw [List.head?_append, hhead]; rfl)

/-- **A text whose line ends, made plain, make up two pieces falls into two pieces itself**, at a clean cut. -/
theorem exists_append_of_normalizeNewlines_eq (h : normalizeNewlines t = x ++ y) :
    ∃ u v, t = u ++ v ∧ CleanCut u v ∧ u.normalizeNewlines = x ∧ v.normalizeNewlines = y := by
  induction t generalizing x with
  | nil =>
    obtain ⟨rfl, rfl⟩ := List.append_eq_nil_iff.1 h.symm
    exact ⟨[], [], rfl, nofun, rfl, rfl⟩
  | cons b t ih =>
    by_cases hb : b = carriageReturn ∧ t.head? = some newline
    · obtain ⟨rfl, hhead⟩ := hb
      rw [normalizeNewlines_of_head? hhead] at h
      by_cases hx : x = []
      · subst hx
        exact ⟨[], carriageReturn :: t, rfl, nofun, rfl, by rw [normalizeNewlines_of_head? hhead, h]; rfl⟩
      · obtain ⟨u, v, rfl, hcut, rfl, rfl⟩ := ih h
        have hu : u ≠ [] := by
          rintro rfl
          exact hx rfl
        rw [List.head?_append_of_ne_nil _ hu] at hhead
        exact ⟨carriageReturn :: u, v, rfl, hcut.append_left hu [carriageReturn],
          normalizeNewlines_of_head? hhead, rfl⟩
    · have hb : b = carriageReturn → t.head? ≠ some newline := fun h h' => hb ⟨h, h'⟩
      rw [normalizeNewlines_cons hb] at h
      cases x with
      | nil => exact ⟨[], b :: t, rfl, nofun, rfl, by rw [normalizeNewlines_cons hb, h]; rfl⟩
      | cons c x =>
        obtain ⟨rfl, hrest⟩ := List.cons_eq_cons.1 h
        obtain ⟨u, v, rfl, hcut, rfl, rfl⟩ := ih hrest
        by_cases hu : u = []
        · subst hu
          exact ⟨[b], v, rfl, fun hbr => hb (by simpa using hbr), normalizeNewlines_cons fun _ => nofun, rfl⟩
        · rw [List.head?_append_of_ne_nil _ hu] at hb
          exact ⟨b :: u, v, rfl, hcut.append_left hu [b], normalizeNewlines_cons hb, rfl⟩

/-- A text of one line has no line end. -/
theorem endsPlain_of_notMem (h : newline ∉ t) : EndsPlain t := by
  rintro u v rfl
  exact absurd (by simp) h

/-- No bytes but carriage returns are lost. -/
theorem mem_normalizeNewlines_iff {b : UInt8} (hb : b ≠ carriageReturn) : b ∈ t.normalizeNewlines ↔ b ∈ t := by
  induction t with
  | nil => rfl
  | cons c t ih =>
    by_cases hc : c = carriageReturn ∧ t.head? = some newline
    · obtain ⟨rfl, hhead⟩ := hc
      simp [normalizeNewlines_of_head? hhead, ih, hb]
    · simp [normalizeNewlines_cons fun h h' => hc ⟨h, h'⟩, ih]

/-- No line ends are added or lost. -/
@[simp] theorem newline_mem_normalizeNewlines : newline ∈ t.normalizeNewlines ↔ newline ∈ t :=
  mem_normalizeNewlines_iff (by decide)

/-- A text that is one line with plain line ends is that line. -/
theorem eq_of_normalizeNewlines_eq (hx : newline ∉ x) (h : t.normalizeNewlines = x) : t = x := by
  rw [← h, newline_mem_normalizeNewlines] at hx
  rwa [(endsPlain_of_notMem hx).normalizeNewlines_eq] at h

/-- **A token stands at the front of a text exactly if it does with plain line ends.** -/
theorem prefix_normalizeNewlines_iff (htoken : Unbroken token) :
    token <+: t.normalizeNewlines ↔ token <+: t := by
  constructor
  · rintro ⟨y, hy⟩
    obtain ⟨u, v, rfl, -, hu, -⟩ := exists_append_of_normalizeNewlines_eq hy.symm
    exact eq_of_normalizeNewlines_eq htoken.2 hu ▸ List.prefix_append u v
  · rintro ⟨y, rfl⟩
    rw [normalizeNewlines_append (cleanCut_of_notMem htoken.1 y),
      (endsPlain_of_notMem htoken.2).normalizeNewlines_eq]
    exact List.prefix_append _ _

/-- **A token starts nowhere in a text exactly if it starts nowhere with plain line ends.** -/
theorem clear_normalizeNewlines_iff (htoken : Unbroken token) (hne : token ≠ []) (h : CleanCut x y) :
    Clear token x.normalizeNewlines y.normalizeNewlines ↔ Clear token x y := by
  induction x with
  | nil => exact Iff.rfl
  | cons b x ih =>
    have hx : CleanCut x y := fun hx => h (by rw [List.getLast?_cons, hx]; rfl)
    have hprefix := prefix_normalizeNewlines_iff (t := b :: x ++ y) htoken
    rw [normalizeNewlines_append h] at hprefix
    by_cases hb : b = carriageReturn ∧ x.head? = some newline
    · -- no token begins with the carriage return that is dropped
      obtain ⟨rfl, hhead⟩ := hb
      rw [normalizeNewlines_of_head? hhead, clear_cons, ih hx]
      refine (and_iff_right fun hp => ?_).symm
      obtain ⟨c, token, rfl⟩ := List.exists_cons_of_ne_nil hne
      exact htoken.1 (by simp [(List.cons_prefix_cons.1 hp).1])
    · rw [normalizeNewlines_cons fun h h' => hb ⟨h, h'⟩] at hprefix ⊢
      rw [clear_cons, clear_cons, ih hx]
      exact and_congr_left fun _ => not_congr hprefix

/-- A line loses the carriage return that it ends in. -/
def dropReturn (line : Text) : Text :=
  if line.getLast? = some carriageReturn then line.dropLast else line

/-- A line stays one. -/
theorem newline_notMem_dropReturn {line : Text} (h : newline ∉ line) : newline ∉ line.dropReturn := by
  rw [dropReturn]
  split
  · exact fun hmem => h (List.dropLast_subset line hmem)
  · exact h

/-- **A line feed takes the carriage return in front of it along.** -/
theorem normalizeNewlines_append_newline (u v : Text) :
    normalizeNewlines (u ++ newline :: v) = u.dropReturn.normalizeNewlines ++ newline :: v.normalizeNewlines := by
  have hhead : ∀ w : Text, CleanCut w (carriageReturn :: newline :: v) :=
    fun w _ h => absurd (Option.some.inj h) (by decide)
  have hnewline : normalizeNewlines (newline :: v) = newline :: v.normalizeNewlines :=
    normalizeNewlines_cons fun h => absurd h (by decide)
  rw [dropReturn]
  split
  · rename_i hu
    obtain ⟨w, rfl⟩ := List.getLast?_eq_some_iff.1 hu
    rw [List.dropLast_concat, List.append_assoc]
    exact (normalizeNewlines_append (hhead w)).trans (by rw [normalizeNewlines_crlf])
  · rename_i hu
    rw [normalizeNewlines_append fun h => absurd h hu, hnewline]

/-- The last line has no line end. -/
theorem lastLine_normalizeNewlines (t : Text) : lastLine t.normalizeNewlines = lastLine t := by
  obtain hlast | ⟨i, hlast⟩ := Option.eq_none_or_eq_some (lastIdxOf? newline t)
  · rw [(endsPlain_of_notMem (lastIdxOf?_eq_none.1 hlast)).normalizeNewlines_eq]
  · obtain ⟨x, z, rfl, -, hz⟩ := lastIdxOf?_eq_some.1 hlast
    rw [normalizeNewlines_append_newline, (endsPlain_of_notMem hz).normalizeNewlines_eq,
      lastLine_append_newline _ hz, lastLine_append_newline _ hz]

/-! ## Offsets -/

/-- **Where an offset of a text comes to stand** in the text with plain line ends, if it lies in no line end. -/
def ReadAt (t : Text) (i i' : Nat) : Prop :=
  ∃ x y, t = x ++ y ∧ CleanCut x y ∧ i = x.length ∧ i' = x.normalizeNewlines.length

/-- **Two offsets outside of line ends cut a text into three parts**, each of which is read by itself. -/
theorem ReadAt.exists_between {i i' j j' : Nat} (hi : ReadAt t i i') (hj : ReadAt t j j') (hij : i ≤ j) :
    ∃ x w y, t = x ++ w ++ y ∧ i = x.length ∧ j = (x ++ w).length ∧ i' = x.normalizeNewlines.length ∧
      j' = (x.normalizeNewlines ++ w.normalizeNewlines).length ∧
      t.normalizeNewlines = x.normalizeNewlines ++ w.normalizeNewlines ++ y.normalizeNewlines := by
  obtain ⟨x, z, rfl, hx, rfl, rfl⟩ := hi
  obtain ⟨u, y, huy, hu, rfl, rfl⟩ := hj
  obtain ⟨w, rfl⟩ := List.prefix_of_prefix_length_le ⟨z, rfl⟩ ⟨y, huy.symm⟩ hij
  rw [List.append_assoc, List.append_cancel_left_eq] at huy
  subst huy
  have hw := normalizeNewlines_append hx.of_append_right
  refine ⟨x, w, y, (List.append_assoc ..).symm, rfl, rfl, rfl, by rw [hw], ?_⟩
  rw [← List.append_assoc, normalizeNewlines_append hu, hw]

/-- **A stretch between two offsets outside of line ends** is read by itself. -/
theorem ReadAt.extract {i i' j j' : Nat} (hi : ReadAt t i i') (hj : ReadAt t j j') :
    t.normalizeNewlines.extract i' j' = normalizeNewlines (t.extract i j) := by
  rcases Nat.le_total i j with h | h
  · obtain ⟨x, w, y, rfl, rfl, rfl, rfl, rfl, ht⟩ := hi.exists_between hj h
    rw [ht, List.length_append, List.length_append, extract_append, extract_append]
  · obtain ⟨x, w, y, -, -, -, rfl, rfl, -⟩ := hj.exists_between hi h
    rw [List.extract_eq_take_drop, List.extract_eq_take_drop, Nat.sub_eq_zero_of_le h,
      Nat.sub_eq_zero_of_le (by simp)]
    rfl

end Text

/-! ## Headers -/

namespace Marker

variable {k : Tokens} {f : Family} {margin lead raw : Text}

/-- What stands behind the margin on a header line does not matter to the margin. -/
theorem mismatch?_append_right {line : Text} (h : margin.length ≤ line.length) (rest : Text) (comment : Nat)
    (terminated : Bool) (i : Nat) :
    mismatch? comment terminated i margin (line ++ rest) = mismatch? comment terminated i margin line := by
  induction margin generalizing line i with
  | nil => rw [mismatch?, mismatch?]
  | cons wanted margin ih =>
    cases line with
    | nil => cases h
    | cons b line => rw [List.cons_append, mismatch?, mismatch?, ih (Nat.le_of_succ_le_succ h)]

/-- The margin is as wide as the lead. -/
theorem length_margin (k : Tokens) (lead : Text) : (standIn k lead).margin.length = lead.length :=
  List.length_map ..

/-- The name that the lines of a header make. -/
def nameOf (lines : List Text) : Text := (Text.ofLines lines).trim

/-- **The lines of a header reach past the margin**, those that end in a carriage return at least. The first
line, which has no margin, and the last one, which the closer ends, need not. -/
def Wide (lead raw : Text) : Prop :=
  ∀ line ∈ (Text.lines raw).tail.dropLast, line.getLast? = some carriageReturn → lead.length < line.length

instance (lead raw : Text) : Decidable (Wide lead raw) := List.decidableBAll _ _

/-- **A header that reads alike with plain line ends.** Either no line in it ends in a carriage return; or no
header of its kind may have a second line; or its lines reach past the margin, it is the end word neither as it is
written nor with plain line ends, and an edit has the same name in both ways. -/
def ReadsPlain (k : Tokens) (f : Family) (lead raw : Text) : Prop :=
  let lines? (raw : Text) := headerLines? k lead raw k.closer
  raw.EndsPlain ∨ k.headerRule = .inline ∨ Wide lead raw ∧
    (lines? raw).map Text.ofLines ≠ some k.endWord ∧
    (lines? raw.normalizeNewlines).map Text.ofLines ≠ some k.endWord ∧
    (f = .edit → (lines? raw.normalizeNewlines).map nameOf = (lines? raw).map nameOf)

instance (k : Tokens) (f : Family) (lead raw : Text) : Decidable (ReadsPlain k f lead raw) :=
  inferInstanceAs (Decidable (_ ∨ _ ∨ _ ∧ _ ∧ _ ∧ (_ → _)))

/-- What the lines of a header have in common with those of the same header with plain line ends: they are
the end word or are not, and the name of an edit stays. -/
structure SameSense (k : Tokens) (f : Family) (lines lines' : List Text) : Prop where
  /-- Both are the end word, or neither is. -/
  isEnd : Text.ofLines lines' = k.endWord ↔ Text.ofLines lines = k.endWord
  /-- An edit has the same name. -/
  name : f = .edit → nameOf lines' = nameOf lines

/-- Every header has the sense that it has. -/
theorem SameSense.refl (k : Tokens) (f : Family) (lines : List Text) : SameSense k f lines lines :=
  ⟨Iff.rfl, fun _ => rfl⟩

/-- **Lines that reach past the margin can be read** exactly if they can be with plain line ends. -/
theorem isSome_furtherLines?_normalizeNewlines (comment : Nat) (terminated : Bool) {v : Text}
    (h : ∀ line ∈ (Text.lines v).dropLast, line.getLast? = some carriageReturn → margin.length < line.length) :
    (furtherLines? margin comment terminated (Text.lines v.normalizeNewlines)).isSome
      = (furtherLines? margin comment terminated (Text.lines v)).isSome := by
  induction v using Text.line_induction with
  | last line hline => rw [(Text.endsPlain_of_notMem hline).normalizeNewlines_eq]
  | more line rest hline ih =>
    have hdrop := Text.newline_notMem_dropReturn hline
    rw [Text.lines_append_newline hline, List.dropLast_cons_of_ne_nil (Text.lines_ne_nil rest),
      List.forall_mem_cons] at h
    have hmismatch : mismatch? comment true 0 margin line.dropReturn = mismatch? comment true 0 margin line := by
      rw [Text.dropReturn]
      split
      · rename_i hreturn
        have hwide := h.1 hreturn
        obtain ⟨w, rfl⟩ := List.getLast?_eq_some_iff.1 hreturn
        rw [List.length_append, List.length_singleton] at hwide
        rw [List.dropLast_concat, mismatch?_append_right (Nat.le_of_lt_succ hwide)]
      · rfl
    have hmore : ∀ t : Text, (Text.lines t).isEmpty = false := fun t => by simpa using Text.lines_ne_nil t
    have ih := ih h.2
    rw [Text.normalizeNewlines_append_newline, (Text.endsPlain_of_notMem hdrop).normalizeNewlines_eq,
      Text.lines_append_newline hline, Text.lines_append_newline hdrop, furtherLines?, furtherLines?]
    simp only [hmore, Bool.not_false, Bool.true_or, hmismatch, Bool.false_eq_true, ite_false]
    cases mismatch? comment true 0 margin line with
    | some i => rfl
    | none => simpa using ih

/-- **A header whose lines reach past the margin can be read** exactly if it can be with plain line ends. -/
theorem isSome_headerLines?_normalizeNewlines (h : Wide lead raw) (after : Text) :
    (headerLines? k lead raw.normalizeNewlines after).isSome = (headerLines? k lead raw after).isSome := by
  by_cases hmem : newline ∈ raw
  · obtain ⟨u, v, rfl, hu⟩ := List.eq_append_cons_of_mem hmem
    have hdrop := Text.newline_notMem_dropReturn hu
    have hplain := (Text.endsPlain_of_notMem hdrop).normalizeNewlines_eq
    have hmore : ∀ t : Text, (Text.lines t).isEmpty = false := fun t => by simpa using Text.lines_ne_nil t
    have hraw : ∀ x y : Text, ¬ newline ∉ k.opener ++ (x ++ newline :: y) := by simp
    rw [Wide, Text.lines_append_newline hu, List.tail_cons, ← length_margin k lead] at h
    have hfurther := isSome_furtherLines?_normalizeNewlines (standIn k lead).commentColumn
      (after.head? == some newline) h
    rw [Text.normalizeNewlines_append_newline, hplain, headerLines?, headerLines?, if_neg (hraw _ _),
      if_neg (hraw _ _)]
    simp only [Text.lines_append_newline hu, Text.lines_append_newline hdrop, hmore, Bool.false_eq_true, ite_false]
    split
    · rfl
    · rw [Option.isSome_map, Option.isSome_map, hfurther]
  · rw [(Text.endsPlain_of_notMem hmem).normalizeNewlines_eq]

/-- A header of several lines cannot be read where a header has one line. -/
theorem headerLines?_of_inline (hrule : k.headerRule = .inline) (h : newline ∈ raw) (after : Text) :
    headerLines? k lead raw after = none := by
  rw [headerLines?, if_neg (by simp [h]), if_pos hrule]

/-- **A header that reads alike with plain line ends** can be read in both ways or in neither, and in the same
sense. -/
theorem ReadsPlain.rel (h : ReadsPlain k f lead raw) (hopener : newline ∉ k.opener) (hcloser : k.closer ≠ [])
    (after after' : Text) :
    Option.Rel (SameSense k f) (headerLines? k lead raw (k.closer ++ after))
      (headerLines? k lead raw.normalizeNewlines (k.closer ++ after')) := by
  rw [headerLines?_congr_after hopener hcloser lead raw.normalizeNewlines after' []]
  rw [headerLines?_congr_after hopener hcloser lead raw after [], List.append_nil]
  by_cases hraw : raw.EndsPlain
  · rw [hraw.normalizeNewlines_eq]
    cases headerLines? k lead raw k.closer with
    | none => exact .none
    | some lines => exact .some (.refl k f lines)
  rcases h.resolve_left hraw with hrule | ⟨hwide, hend, hend', hname⟩
  · have hmem : newline ∈ raw := not_not.1 fun hmem => hraw (Text.endsPlain_of_notMem hmem)
    rw [headerLines?_of_inline hrule hmem, headerLines?_of_inline hrule (by simpa)]
    exact .none
  · have hsome := isSome_headerLines?_normalizeNewlines (k := k) hwide k.closer
    cases hlines : headerLines? k lead raw k.closer <;>
      cases hlines' : headerLines? k lead raw.normalizeNewlines k.closer
    · exact .none
    · simp [hlines, hlines'] at hsome
    · simp [hlines, hlines'] at hsome
    · simp only [hlines, hlines'] at hend hend' hname
      exact .some ⟨iff_of_false (fun h => hend' (congrArg some h)) (fun h => hend (congrArg some h)),
        fun hf => Option.some.inj (hname hf)⟩

end Marker

/-! ## Lexemes -/

/-- **No token that delimits markers holds a byte of a line end.** -/
def Settings.Unbroken (s : Settings) : Prop :=
  ∀ f, Text.Unbroken (s.tokens f).opener ∧ Text.Unbroken (s.tokens f).closer

/-- The tokens of a project that configures nothing hold none. -/
theorem Settings.unbroken_standard : Settings.standard.Unbroken := fun f => by cases f <;> decide +kernel

namespace Lexeme

variable {s : Settings} {ls ls' : List Lexeme} {t : Text}

/-- Lexemes with plain line ends. -/
def plain : List Lexeme → List Lexeme
  | [] => []
  | byte b :: ls =>
    if b = carriageReturn ∧ ls.head? = some (byte newline) then plain ls else byte b :: plain ls
  | marker f raw :: ls => marker f raw.normalizeNewlines :: plain ls

/-- A text of lexemes begins with a line feed only outside of markers. -/
theorem head?_textOf_eq_newline_iff (hs : s.Unbroken) (husable : Document.Usable s) :
    (textOf s ls).head? = some newline ↔ ls.head? = some (byte newline) := by
  cases ls with
  | nil => simp
  | cons l ls =>
    cases l with
    | byte b => simp
    | marker f raw =>
      obtain ⟨c, token, htoken⟩ := List.exists_cons_of_ne_nil (husable.opener f)
      have hc : newline ≠ c := by
        have hmem := (hs f).1.2
        rw [htoken] at hmem
        exact fun h => hmem (by simp [h])
      simp [text, htoken, hc.symm]

/-- A stretch begins as its text does. -/
theorem head?_of_stretch (h : (stretch s ls).head? = some newline) : (textOf s ls).head? = some newline := by
  obtain ⟨rest, hrest⟩ := stretch_isPrefix s ls
  rw [← hrest, List.head?_append, h]
  rfl

/-- A marker does not end in a carriage return. -/
theorem cleanCut_text_marker (hs : s.Unbroken) (husable : Document.Usable s) (f : Family) (raw rest : Text) :
    Text.CleanCut (text s (marker f raw)) rest :=
  (Text.cleanCut_of_notMem (hs f).2.1 rest).append_left (husable.closer f) _

/-- **The marker with the header with plain line ends** is written with plain line ends. -/
theorem text_marker_normalizeNewlines (hs : s.Unbroken) (f : Family) (raw : Text) :
    text s (marker f raw.normalizeNewlines) = (text s (marker f raw)).normalizeNewlines := by
  obtain ⟨hopener, hcloser⟩ := hs f
  rw [text, text, List.append_assoc, List.append_assoc,
    Text.normalizeNewlines_append (Text.cleanCut_of_notMem hopener.1 _),
    Text.normalizeNewlines_append (Text.cleanCut_of_newline_notMem raw hcloser.2),
    (Text.endsPlain_of_notMem hopener.2).normalizeNewlines_eq,
    (Text.endsPlain_of_notMem hcloser.2).normalizeNewlines_eq]

/-- **Plain lexemes make up the text with plain line ends.** -/
theorem textOf_plain (hs : s.Unbroken) (husable : Document.Usable s) (ls : List Lexeme) :
    textOf s (plain ls) = (textOf s ls).normalizeNewlines := by
  fun_induction plain ls with
  | case1 => rfl
  | case2 b ls hb ih =>
    rw [hb.1, textOf_cons]
    exact ih.trans (Text.normalizeNewlines_of_head? ((head?_textOf_eq_newline_iff hs husable).2 hb.2)).symm
  | case3 b ls hb ih =>
    rw [textOf_cons, textOf_cons, ih]
    exact (Text.normalizeNewlines_cons fun h h' => hb ⟨h, (head?_textOf_eq_newline_iff hs husable).1 h'⟩).symm
  | case4 f raw ls ih =>
    rw [textOf_cons, textOf_cons, ih, text_marker_normalizeNewlines hs,
      Text.normalizeNewlines_append (cleanCut_text_marker hs husable f raw _)]

/-- **The stretch of plain lexemes** is the stretch with plain line ends. -/
theorem stretch_plain (hs : s.Unbroken) (husable : Document.Usable s) (ls : List Lexeme) :
    stretch s (plain ls) = (stretch s ls).normalizeNewlines := by
  fun_induction plain ls with
  | case1 => rfl
  | case2 b ls hb ih =>
    obtain ⟨rfl, hhead⟩ := hb
    obtain ⟨ls, rfl⟩ := List.head?_eq_some_iff.1 hhead
    exact ih.trans (Text.normalizeNewlines_of_head? rfl).symm
  | case3 b ls hb ih =>
    rw [stretch, stretch, ih, Text.normalizeNewlines_cons]
    exact fun h h' => hb ⟨h, (head?_textOf_eq_newline_iff hs husable).1 (head?_of_stretch h')⟩
  | case4 f raw ls ih =>
    cases f with
    | generation => rfl
    | edit =>
      rw [stretch, stretch, ih, text_marker_normalizeNewlines hs,
        Text.normalizeNewlines_append (cleanCut_text_marker hs husable .edit raw _)]

/-- What it takes for a byte to be a lexeme. -/
theorem lexed_byte_iff {b : UInt8} : Lexed s (byte b :: ls) ↔
    ¬ s.generation.opener <+: b :: textOf s ls ∧ ¬ s.edit.opener <+: b :: stretch s ls ∧ Lexed s ls := by
  constructor
  · rintro (_ | ⟨hgeneration, hedit, hrest⟩)
    exact ⟨hgeneration, hedit, hrest⟩
  · rintro ⟨hgeneration, hedit, hrest⟩
    exact .byte hgeneration hedit hrest

/-- What it takes for a generation marker to be a lexeme. -/
theorem lexed_generation_iff {raw : Text} : Lexed s (marker .generation raw :: ls) ↔
    Text.Clear s.generation.closer raw s.generation.closer ∧ Lexed s ls := by
  constructor
  · rintro (_ | _ | ⟨hcloser, hrest⟩)
    exact ⟨hcloser, hrest⟩
  · rintro ⟨hcloser, hrest⟩
    exact .generation hcloser hrest

/-- What it takes for an edit marker to be a lexeme. -/
theorem lexed_edit_iff {raw : Text} : Lexed s (marker .edit raw :: ls) ↔
    Text.Clear s.edit.closer raw s.edit.closer ∧
      Text.Clear s.generation.opener (text s (marker .edit raw)) (textOf s ls) ∧ Lexed s ls := by
  constructor
  · rintro (_ | _ | _ | ⟨hcloser, hgeneration, hrest⟩)
    exact ⟨hcloser, hgeneration, hrest⟩
  · rintro ⟨hcloser, hgeneration, hrest⟩
    exact .edit hcloser hgeneration hrest

/-- The header of a marker is read up to the first closer, whatever its family is. -/
theorem Lexed.clear_closer {raw : Text} {f : Family} (h : Lexed s (marker f raw :: ls)) :
    Text.Clear (s.tokens f).closer raw (s.tokens f).closer := by
  cases f with
  | generation => exact (lexed_generation_iff.1 h).1
  | edit => exact (lexed_edit_iff.1 h).1

/-- What is behind a lexeme is lexed. -/
theorem Lexed.tail {l : Lexeme} (h : Lexed s (l :: ls)) : Lexed s ls := by
  cases h <;> assumption

/-- **Lexemes are those of a text exactly if the plain ones are.** -/
theorem lexed_plain_iff (hs : s.Unbroken) (husable : Document.Usable s) (ls : List Lexeme) :
    Lexed s (plain ls) ↔ Lexed s ls := by
  have hcloser : ∀ (f : Family) (raw : Text), Text.Clear (s.tokens f).closer raw.normalizeNewlines
      (s.tokens f).closer ↔ Text.Clear (s.tokens f).closer raw (s.tokens f).closer := by
    intro f raw
    have h := Text.clear_normalizeNewlines_iff (hs f).2 (husable.closer f)
      (Text.cleanCut_of_newline_notMem raw (hs f).2.2)
    rwa [(Text.endsPlain_of_notMem (hs f).2.2).normalizeNewlines_eq] at h
  fun_induction plain ls with
  | case1 => rfl
  | case2 b ls hb ih =>
    -- no opener begins with the carriage return that is dropped
    obtain ⟨rfl, -⟩ := hb
    have hopener : ∀ (f : Family) (x : Text), ¬ (s.tokens f).opener <+: carriageReturn :: x := by
      intro f x hp
      obtain ⟨c, token, htoken⟩ := List.exists_cons_of_ne_nil (husable.opener f)
      rw [htoken] at hp
      exact (hs f).1.1 (by simp [htoken, (List.cons_prefix_cons.1 hp).1])
    rw [lexed_byte_iff]
    exact ih.trans ⟨fun h => ⟨hopener .generation _, hopener .edit _, h⟩, fun h => h.2.2⟩
  | case3 b ls hb ih =>
    have hhead : b = carriageReturn → (textOf s ls).head? ≠ some newline :=
      fun h h' => hb ⟨h, (head?_textOf_eq_newline_iff hs husable).1 h'⟩
    have hhead' : b = carriageReturn → (stretch s ls).head? ≠ some newline :=
      fun h h' => hhead h (head?_of_stretch h')
    rw [lexed_byte_iff, lexed_byte_iff, textOf_plain hs husable, stretch_plain hs husable,
      ← Text.normalizeNewlines_cons hhead, ← Text.normalizeNewlines_cons hhead']
    exact and_congr (not_congr (Text.prefix_normalizeNewlines_iff (hs .generation).1))
      (and_congr (not_congr (Text.prefix_normalizeNewlines_iff (hs .edit).1)) ih)
  | case4 f raw ls ih =>
    cases f with
    | generation =>
      rw [lexed_generation_iff, lexed_generation_iff]
      exact and_congr (hcloser .generation raw) ih
    | edit =>
      rw [lexed_edit_iff, lexed_edit_iff, text_marker_normalizeNewlines hs, textOf_plain hs husable]
      exact and_congr (hcloser .edit raw) (and_congr (Text.clear_normalizeNewlines_iff (hs .generation).1
        (husable.opener .generation) (cleanCut_text_marker hs husable .edit raw _)) ih)

/-- **Lexemes of a text with plain line ends** are the plain ones of lexemes of the text. -/
theorem exists_plain_eq (hs : s.Unbroken) (husable : Document.Usable s)
    (ht : t.normalizeNewlines = textOf s ls') : ∃ ls, textOf s ls = t ∧ plain ls = ls' := by
  induction ls' generalizing t with
  | nil => exact ⟨[], (Text.eq_of_normalizeNewlines_eq List.not_mem_nil ht).symm, rfl⟩
  | cons l ls' ih =>
    cases l with
    | byte b =>
      cases t with
      | nil => cases ht
      | cons c t =>
        by_cases hc : c = carriageReturn ∧ t.head? = some newline
        · obtain ⟨rfl, hhead⟩ := hc
          obtain ⟨t, rfl⟩ := List.head?_eq_some_iff.1 hhead
          rw [Text.normalizeNewlines_crlf] at ht
          obtain ⟨rfl, hrest⟩ := List.cons_eq_cons.1 ht
          obtain ⟨ls, rfl, rfl⟩ := ih hrest
          refine ⟨byte carriageReturn :: byte newline :: ls, rfl, ?_⟩
          simp [plain, show newline ≠ carriageReturn by decide]
        · rw [Text.normalizeNewlines_cons fun h h' => hc ⟨h, h'⟩] at ht
          obtain ⟨rfl, hrest⟩ := List.cons_eq_cons.1 ht
          obtain ⟨ls, rfl, rfl⟩ := ih hrest
          rw [head?_textOf_eq_newline_iff hs husable] at hc
          exact ⟨byte c :: ls, rfl, if_neg hc⟩
    | marker f raw' =>
      obtain ⟨u, v, rfl, -, hu, hv⟩ := Text.exists_append_of_normalizeNewlines_eq ht
      obtain ⟨ls, rfl, rfl⟩ := ih hv
      rw [text, List.append_assoc] at hu
      obtain ⟨opener, w, rfl, -, hopener, hw⟩ := Text.exists_append_of_normalizeNewlines_eq hu
      obtain ⟨raw, closer, rfl, -, rfl, hcloser⟩ := Text.exists_append_of_normalizeNewlines_eq hw
      rw [Text.eq_of_normalizeNewlines_eq (hs f).1.2 hopener, Text.eq_of_normalizeNewlines_eq (hs f).2.2 hcloser]
      exact ⟨marker f raw :: ls, by simp [text], rfl⟩

end Lexeme

/-! ## Headers of a text -/

namespace Text

/-- The header behind an opener, up to the first closer, if there are both. -/
def headerAt? (k : Tokens) (t : Text) (i : Nat) : Option Text :=
  let rest := t.drop (i + k.opener.length)
  if StandsAt k.opener t i then (find? k.closer rest).map (rest.take ·) else none

/-- **The header behind an opener reads alike with plain line ends**, if an opener and a closer are there. -/
def HeaderReadsPlain (s : Settings) (t : Text) (f : Family) (i : Nat) : Prop :=
  match headerAt? (s.tokens f) t i with
  | some raw => Marker.ReadsPlain (s.tokens f) f (lastLine (t.take i)) raw
  | none => True

instance (s : Settings) (t : Text) (f : Family) (i : Nat) : Decidable (HeaderReadsPlain s t f i) :=
  match h : headerAt? (s.tokens f) t i with
  | some raw =>
    decidable_of_iff (Marker.ReadsPlain (s.tokens f) f (lastLine (t.take i)) raw) (by rw [HeaderReadsPlain, h])
  | none => isTrue (by rw [HeaderReadsPlain, h]; trivial)

/-- **All headers of a text read alike with plain line ends.** What stands behind any opener up to the first
closer is taken for a header, whether or not it is one. -/
def HeadersReadPlain (s : Settings) (t : Text) : Prop :=
  ∀ f, ∀ i < t.length, HeaderReadsPlain s t f i

instance (s : Settings) (t : Text) : Decidable (HeadersReadPlain s t) :=
  decidable_of_iff
    ((∀ i < t.length, HeaderReadsPlain s t .generation i) ∧ ∀ i < t.length, HeaderReadsPlain s t .edit i)
    ⟨fun h f => by cases f; exacts [h.1, h.2], fun h => ⟨h .generation, h .edit⟩⟩

/-- The header of a marker is found behind its opener. -/
theorem headerAt?_append {k : Tokens} (hcloser : k.closer ≠ []) (before raw rest : Text)
    (h : Clear k.closer raw k.closer) :
    headerAt? k (before ++ (k.opener ++ raw ++ k.closer ++ rest)) before.length = some raw := by
  have hstands : StandsAt k.opener (before ++ (k.opener ++ raw ++ k.closer ++ rest)) before.length := by
    rw [StandsAt, List.drop_left, List.append_assoc, List.append_assoc]
    exact List.prefix_append _ _
  have hdrop : (before ++ (k.opener ++ raw ++ k.closer ++ rest)).drop (before.length + k.opener.length)
      = raw ++ k.closer ++ rest := by
    rw [← List.drop_drop, List.drop_left, List.append_assoc, List.append_assoc, List.drop_left,
      List.append_assoc]
  rw [headerAt?, if_pos hstands, hdrop, (find?_eq_some_iff hcloser _ _).2 ⟨raw, rest, rfl, rfl, h.append_self rest⟩,
    Option.map_some, List.append_assoc, List.take_left]

/-- Where all headers read alike, that of a marker does. -/
theorem HeadersReadPlain.readsPlain {s : Settings} {f : Family} {before raw rest : Text}
    (h : (before ++ (Lexeme.text s (.marker f raw) ++ rest)).HeadersReadPlain s) (husable : Document.Usable s)
    (hcloser : Clear (s.tokens f).closer raw (s.tokens f).closer) :
    Marker.ReadsPlain (s.tokens f) f (lastLine before) raw := by
  have hopener := List.length_pos_of_ne_nil (husable.opener f)
  have hheader := h f before.length (by simp [Lexeme.text]; omega)
  rwa [HeaderReadsPlain, Lexeme.text, headerAt?_append (husable.closer f) before raw rest hcloser,
    List.take_left] at hheader

end Text

/-! ## Markers -/

/-- **A marker of a text and the same marker in the text with plain line ends.** -/
structure Marker.ReadAs (t : Text) (m m' : Marker) : Prop where
  /-- They belong to one family. -/
  family : m'.family = m.family
  /-- They are written with the same tokens. -/
  tokens : m'.tokens = m.tokens
  /-- The same stands in front of them. -/
  lead : m'.lead = m.lead
  /-- Both end a block, or neither does. -/
  isEnd : m'.isEnd = m.isEnd
  /-- They give an edit the same name. -/
  name : m.family = .edit → m'.name = m.name
  /-- They begin at the same place. -/
  openAt : t.ReadAt m.openAt m'.openAt
  /-- They end at the same place. -/
  closeEnd : t.ReadAt m.closeEnd m'.closeEnd

namespace Lexeme

variable {s : Settings} {ls : List Lexeme} {before raw rest : Text} {f : Family}

/-- **A marker can be read exactly if it can be with plain line ends**, if its header reads alike. -/
theorem read?_plain (hs : s.Unbroken) (husable : Document.Usable s)
    (hheader : Marker.ReadsPlain (s.tokens f) f (Text.lastLine before) raw) (after after' : Text)
    (hcut : Text.CleanCut before (text s (marker f raw) ++ rest)) :
    Option.Rel (Marker.ReadAs (before ++ (text s (marker f raw) ++ rest))) (read? s before f raw after)
      (read? s before.normalizeNewlines f raw.normalizeNewlines after') := by
  have hmarker := cleanCut_text_marker hs husable f raw rest
  have hend : Text.CleanCut (before ++ text s (marker f raw)) rest :=
    hmarker.append_left (by simp [text, husable.opener f]) before
  have hlength : (before ++ text s (marker f raw)).normalizeNewlines.length
      = before.normalizeNewlines.length + (text s (marker f raw.normalizeNewlines)).length := by
    rw [Text.normalizeNewlines_append hcut.of_append_right, List.length_append,
      text_marker_normalizeNewlines hs]
  have hrel := hheader.rel (hs f).1.2 (husable.closer f) after after'
  rw [read?, read?, Text.lastLine_normalizeNewlines]
  revert hrel
  generalize Marker.headerLines? _ _ raw _ = lines?
  generalize Marker.headerLines? _ _ raw.normalizeNewlines _ = lines'?
  rintro (hsense | _)
  · refine .some ⟨rfl, rfl, rfl, ?_, ?_, ⟨_, _, rfl, hcut, rfl, rfl⟩,
      ⟨_, rest, (List.append_assoc ..).symm, hend, by rw [List.length_append], hlength.symm⟩⟩
    · rw [Bool.eq_iff_iff]
      simpa [Marker.isEnd, Marker.header] using hsense.isEnd
    · intro hf
      exact hsense.name hf
  · exact .none

/-- A marker and the markers behind it can be read exactly if they can be with plain line ends, when both can. -/
theorem markersFrom_marker_rel {before' raw' : Text} {ls' : List Lexeme} {R : Marker → Marker → Prop}
    (hread : Option.Rel R (read? s before f raw (textOf s ls)) (read? s before' f raw' (textOf s ls')))
    (hmore : Option.Rel (List.Forall₂ R) (markersFrom s (before ++ text s (marker f raw)) ls [])
      (markersFrom s (before' ++ text s (marker f raw')) ls' [])) :
    Option.Rel (List.Forall₂ R) (markersFrom s before (marker f raw :: ls) [])
      (markersFrom s before' (marker f raw' :: ls') []) := by
  rw [markersFrom, markersFrom, List.append_nil, List.append_nil]
  revert hread hmore
  generalize read? s before f raw _ = m?
  generalize read? s before' f raw' _ = m'?
  generalize markersFrom s (before ++ _) ls [] = ms?
  generalize markersFrom s (before' ++ _) ls' [] = ms'?
  rintro (hm | _) (hms | _)
  · exact .some (.cons hm hms)
  · exact .none
  · exact .none
  · exact .none

/-- **Markers can be read exactly if they can be with plain line ends**, and they are the same. -/
theorem markersFrom_plain (hs : s.Unbroken) (husable : Document.Usable s) {before' : Text} (hlexed : Lexed s ls)
    (hheaders : (before ++ textOf s ls).HeadersReadPlain s)
    (hbefore : (before ++ textOf s ls).normalizeNewlines = before' ++ (textOf s ls).normalizeNewlines) :
    Option.Rel (List.Forall₂ (Marker.ReadAs (before ++ textOf s ls))) (markersFrom s before ls [])
      (markersFrom s before' (plain ls) []) := by
  fun_induction plain ls generalizing before before' with
  | case1 => exact .some .nil
  | case2 b ls hb ih =>
    obtain ⟨rfl, hhead⟩ := hb
    rw [textOf_cons, text_byte, ← List.append_assoc] at hheaders hbefore ⊢
    refine ih hlexed.tail hheaders (hbefore.trans ?_)
    exact congrArg _ (Text.normalizeNewlines_of_head? ((head?_textOf_eq_newline_iff hs husable).2 hhead))
  | case3 b ls hb ih =>
    have hhead : b = carriageReturn → (textOf s ls).head? ≠ some newline :=
      fun h h' => hb ⟨h, (head?_textOf_eq_newline_iff hs husable).1 h'⟩
    rw [textOf_cons, text_byte, ← List.append_assoc] at hheaders hbefore ⊢
    refine ih hlexed.tail hheaders (hbefore.trans ?_)
    rw [List.singleton_append, Text.normalizeNewlines_cons hhead, List.append_cons]
  | case4 f raw ls ih =>
    -- the marker does not begin with a line feed, so that the text in front of it is read by itself
    have hcut : Text.CleanCut before (textOf s (marker f raw :: ls)) :=
      fun _ hhead => nomatch (head?_textOf_eq_newline_iff hs husable).1 hhead
    have hmarker := cleanCut_text_marker hs husable f raw (textOf s ls)
    rw [textOf_cons] at hheaders hbefore hcut ⊢
    rw [Text.normalizeNewlines_append hcut, List.append_cancel_right_eq] at hbefore
    subst hbefore
    refine markersFrom_marker_rel
      (read?_plain hs husable (hheaders.readsPlain husable hlexed.clear_closer) _ _ hcut) ?_
    rw [← List.append_assoc] at hheaders ⊢
    refine ih hlexed.tail hheaders ?_
    rw [List.append_assoc, Text.normalizeNewlines_append hcut, Text.normalizeNewlines_append hmarker,
      text_marker_normalizeNewlines hs, List.append_assoc]

end Lexeme

/-- **A text and the same text with plain line ends have the same markers**: a scan finds those of the one
exactly if it finds those of the other. -/
theorem Marker.scanAll_normalizeNewlines {s : Settings} {t : Text} (hs : s.Unbroken)
    (husable : Document.Usable s) (hheaders : t.HeadersReadPlain s) :
    (∀ ms, scanAll t s = .ok ms →
      ∃ ms', scanAll t.normalizeNewlines s = .ok ms' ∧ List.Forall₂ (ReadAs t) ms ms') ∧
    (∀ ms', scanAll t.normalizeNewlines s = .ok ms' →
      ∃ ms, scanAll t s = .ok ms ∧ List.Forall₂ (ReadAs t) ms ms') := by
  constructor
  · intro ms hms
    obtain ⟨ls, hlexed, rfl, hread⟩ := husable.scanAll_eq_ok_iff.1 hms
    have hrel := @Lexeme.markersFrom_plain s ls [] hs husable [] hlexed hheaders rfl
    rw [hread] at hrel
    generalize hread' : Lexeme.markersFrom s [] (Lexeme.plain ls) [] = ms'? at hrel
    obtain ⟨hms'⟩ := hrel
    exact ⟨_, husable.scanAll_eq_ok_iff.2 ⟨_, (Lexeme.lexed_plain_iff hs husable ls).2 hlexed,
      Lexeme.textOf_plain hs husable ls, hread'⟩, hms'⟩
  · intro ms' hms'
    obtain ⟨ls', hlexed', htext, hread'⟩ := husable.scanAll_eq_ok_iff.1 hms'
    obtain ⟨ls, rfl, rfl⟩ := Lexeme.exists_plain_eq hs husable htext.symm
    have hlexed := (Lexeme.lexed_plain_iff hs husable ls).1 hlexed'
    have hrel := @Lexeme.markersFrom_plain s ls [] hs husable [] hlexed hheaders rfl
    rw [hread'] at hrel
    generalize hread : Lexeme.markersFrom s [] ls [] = ms? at hrel
    obtain ⟨hms⟩ := hrel
    exact ⟨_, husable.scanAll_eq_ok_iff.2 ⟨ls, hlexed, rfl, hread⟩, hms⟩

end Regen
