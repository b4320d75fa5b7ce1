import Regen.Marker.Header
import Regen.Proofs.Lines

/-!
# Headers apart from their text

Whether a header can be read, and which lines it has, does not depend on where its marker stands.
What it does depend on is listed by `headerLines?`: the tokens, what stands in front of the opener
on its line, the header as it is written, and – for a header that breaks off in the comment of its
last line – what follows it. So a marker that is moved keeps its header, provided that it is
moved together with its lead, and a header on one line does not even need that.

A header of several lines repeats what stands in front of its marker. If a text is indented, so that
the same margin is put in front of the marker and of the further lines of its header, the header
stays what it was (`headerLines?_hang`).
-/

namespace Regen.Marker

/-- The lines of a header after the first, if they can be read. `terminated` says whether a line feed
follows the last of them. -/
def furtherLines? (margin : Text) (comment : Nat) (terminated : Bool) :
    List Text → Option (List Text)
  | [] => some []
  | line :: more =>
    match mismatch? comment (!more.isEmpty || terminated) 0 margin line with
    | some _ => none
    | none =>
      if more.isEmpty then
        if margin.length < line.length then
          some [Text.dropEndPadding (cutMargin margin.length line)]
        else some []
      else (furtherLines? margin comment terminated more).map (cutMargin margin.length line :: ·)

/-- **The further lines of a header** are read alike wherever they stand. -/
theorem readFurther_toOption (margin : Text) (comment : Nat) {t after : Text} {lines : List Text}
    {offset : Nat} (h : t.drop offset = Text.ofLines lines ++ after) :
    (readFurther t margin comment offset lines).toOption
      = furtherLines? margin comment (after.head? == some Text.newline) lines := by
  induction lines generalizing offset with
  | nil => rfl
  | cons line more ih =>
    have hbyte : t[offset + line.length]? = (Text.ofLines (line :: more) ++ after)[line.length]? := by
      rw [← h, List.getElem?_drop]
    cases more with
    | nil =>
      have hlast : t[offset + line.length]? = after.head? := by
        rw [hbyte, Text.ofLines_singleton, List.getElem?_append_right le_rfl, Nat.sub_self,
          List.head?_eq_getElem?]
      simp only [readFurther, furtherLines?, hlast, List.isEmpty_nil, Bool.not_true,
        Bool.false_or, ite_true]
      generalize mismatch? _ _ _ _ _ = mismatch
      cases mismatch with
      | some i => rfl
      | none =>
        dsimp only
        split <;> rfl
    | cons next more =>
      rw [Text.ofLines_cons line (List.cons_ne_nil next more)] at h hbyte
      have hnewline : t[offset + line.length]? = some Text.newline := by
        rw [hbyte]
        simp
      have hmore := @ih (offset + line.length + 1) (by
        rw [Nat.add_assoc, ← List.drop_drop, h]
        simp)
      rw [readFurther, furtherLines?]
      simp only [hnewline, BEq.rfl, List.isEmpty_cons, Bool.not_false, Bool.true_or,
        Bool.false_eq_true, ite_false, ← hmore]
      generalize mismatch? _ _ _ _ _ = mismatch
      cases mismatch with
      | some i => rfl
      | none =>
        dsimp only
        cases readFurther t margin comment (offset + line.length + 1) (next :: more) <;> rfl

/-- A marker with these tokens behind this lead, of which only these are given. -/
def standIn (k : Tokens) (lead : Text) : Marker :=
  { family := .generation, tokens := k, lead, openAt := 0, closeEnd := 0, headerLines := [] }

/-- **The lines of a header** that is written `raw` behind a lead and in front of `after`, if it
can be read. -/
def headerLines? (k : Tokens) (lead raw after : Text) : Option (List Text) :=
  if Text.newline ∉ k.opener ++ raw then
    if k.headerRule = .multiline then none
    else some (if (Text.unpad raw).isEmpty then [] else [Text.unpad raw])
  else if k.headerRule = .inline then none
  else
    match Text.lines raw with
    | [] => some []
    | first :: more =>
      let m := standIn k lead
      let further :=
        if more.isEmpty then
          furtherLines? m.margin m.commentColumn (after[1]? == some Text.newline) [[]]
        else furtherLines? m.margin m.commentColumn (after.head? == some Text.newline) more
      further.map (firstLine first ++ ·)

/-- **A marker reads its header as it would alone.** -/
theorem readHeader_eq_headerLines? (pre raw after : Text) (m : Marker)
    (h : m.openAt = pre.length) :
    (readHeader (pre ++ (m.tokens.opener ++ raw) ++ after) m
        (pre.length + (m.tokens.opener ++ raw).length)).toOption
      = headerLines? m.tokens m.lead raw after := by
  have hwhole := Text.extract_append pre (m.tokens.opener ++ raw) after
  have hraw : (pre ++ (m.tokens.opener ++ raw) ++ after).extract
      (pre.length + m.tokens.opener.length) (pre.length + (m.tokens.opener ++ raw).length) = raw := by
    simpa [Nat.add_assoc] using Text.extract_append (pre ++ m.tokens.opener) raw after
  have hdrop : ∀ n, (pre ++ (m.tokens.opener ++ raw) ++ after).drop
      (pre.length + m.tokens.opener.length + n) = (raw ++ after).drop n := by
    intro n
    rw [← List.length_append, ← List.drop_drop, ← List.append_assoc, List.append_assoc _ raw,
      List.drop_left]
  unfold readHeader headerLines?
  simp only [h, hwhole, hraw]
  split
  · split <;> rfl
  · split
    · rfl
    · have hlines := Text.ofLines_lines raw
      cases hcons : Text.lines raw with
      | nil => rfl
      | cons first more =>
        rw [hcons] at hlines
        dsimp only
        cases more with
        | nil =>
          have hfurther := readFurther_toOption m.margin m.commentColumn ((hdrop (first.length + 1)).trans
            (show _ = Text.ofLines [[]] ++ after.drop 1 by
              rw [← hlines, Text.ofLines_singleton, ← List.drop_drop, List.drop_left]
              rfl))
          rw [List.head?_drop, ← Nat.add_assoc] at hfurther
          refine Eq.trans ?_ (congrArg (Option.map (firstLine first ++ ·)) hfurther)
          rw [List.isEmpty_nil, if_pos rfl]
          cases readFurther _ _ _ _ [[]] <;> rfl
        | cons next more =>
          have hfurther := readFurther_toOption m.margin m.commentColumn ((hdrop (first.length + 1)).trans
            (show _ = Text.ofLines (next :: more) ++ after by
              rw [← hlines, Text.ofLines_cons _ (List.cons_ne_nil next more), ← List.drop_drop,
                List.append_assoc, List.drop_left]
              rfl))
          rw [← Nat.add_assoc] at hfurther
          refine Eq.trans ?_ (congrArg (Option.map (firstLine first ++ ·)) hfurther)
          rw [List.isEmpty_cons, if_neg (by simp)]
          cases readFurther _ _ _ _ (next :: more) <;> rfl

/-- **Headers that are written alike on one line are read alike**, whatever stands around them. -/
theorem headerLines?_congr_of_notMem {k : Tokens} {raw : Text} (lead lead' after after' : Text)
    (h : Text.newline ∉ k.opener ++ raw) :
    headerLines? k lead raw after = headerLines? k lead' raw after' := by
  rw [headerLines?, headerLines?, if_pos h, if_pos h]

/-- **What follows the closer does not matter** to a header whose opener lies on one line. -/
theorem headerLines?_congr_after {k : Tokens} (hopener : Text.newline ∉ k.opener)
    (hcloser : k.closer ≠ []) (lead raw after after' : Text) :
    headerLines? k lead raw (k.closer ++ after) = headerLines? k lead raw (k.closer ++ after') := by
  by_cases hline : Text.newline ∉ k.opener ++ raw
  · exact headerLines?_congr_of_notMem lead lead _ _ hline
  · obtain ⟨u, v, rfl, hu⟩ : ∃ u v, raw = u ++ Text.newline :: v ∧ Text.newline ∉ u :=
      List.eq_append_cons_of_mem (by simpa [hopener] using hline)
    have hmore : (Text.lines v).isEmpty = false := by
      simpa using Text.lines_ne_nil v
    have hhead : ∀ rest, (k.closer ++ rest).head? = k.closer.head? := fun rest =>
      List.head?_append_of_ne_nil _ hcloser
    rw [headerLines?, headerLines?, if_neg hline, if_neg hline]
    simp only [Text.lines_append_newline hu, hmore, Bool.false_eq_true, ite_false, hhead]

/-! ## Indented headers -/

/-- A margin is repeated by itself. -/
theorem mismatch?_append {margin : Text} (hmargin : ∀ b ∈ margin, Text.isIndent b) (comment : Nat)
    (terminated : Bool) (i : Nat) (rest line : Text) :
    mismatch? comment terminated i (margin ++ rest) (margin ++ line)
      = mismatch? comment terminated (i + margin.length) rest line := by
  induction margin generalizing i with
  | nil => rfl
  | cons b margin ih =>
    obtain ⟨hb, hmargin⟩ := List.forall_mem_cons.1 hmargin
    have hrepeats : repeats comment i b b = true := by
      rcases Text.isIndent_iff.1 hb with rfl | rfl <;> simp [repeats, Text.space, Text.tab]
    rw [List.cons_append, List.cons_append, mismatch?, if_pos hrepeats, ih hmargin,
      List.length_cons]
    congr 1
    omega

/-- Columns can be counted from further in front, if the comment is. -/
theorem mismatch?_add {comment comment' n : Nat} (hcomment : ∀ i, n + i < comment' ↔ i < comment)
    (terminated : Bool) (i : Nat) (margin line : Text) :
    mismatch? comment' terminated (n + i) margin line
      = (mismatch? comment terminated i margin line).map (n + ·) := by
  induction margin generalizing i line with
  | nil => cases line <;> rfl
  | cons wanted margin ih =>
    cases line with
    | nil =>
      have hle : comment' ≤ n + i ↔ comment ≤ i := by
        rw [← not_lt, ← not_lt, hcomment]
      simp only [mismatch?, hle]
      split <;> rfl
    | cons b line =>
      have hrepeats : repeats comment' (n + i) wanted b = repeats comment i wanted b := by
        simp only [repeats, hcomment]
      simp only [mismatch?, hrepeats]
      split
      · exact ih (i + 1) line
      · rfl

/-- Further lines behind a margin are read alike. -/
theorem furtherLines?_append {margin : Text} (hmargin : ∀ b ∈ margin, Text.isIndent b)
    {comment comment' : Nat} (hcomment : ∀ i, margin.length + i < comment' ↔ i < comment)
    (rest : Text) (terminated : Bool) (lines : List Text) :
    furtherLines? (margin ++ rest) comment' terminated (lines.map (margin ++ ·))
      = furtherLines? rest comment terminated lines := by
  induction lines with
  | nil => rfl
  | cons line more ih =>
    have hmismatch := mismatch?_append hmargin comment' (!more.isEmpty || terminated) 0 rest line
    rw [Nat.zero_add, ← Nat.add_zero margin.length, mismatch?_add hcomment] at hmismatch
    have hcut : cutMargin (margin ++ rest).length (margin ++ line) = cutMargin rest.length line := by
      rw [cutMargin, cutMargin, List.length_append, ← List.drop_drop, List.drop_left]
    have hlt : (margin ++ rest).length < (margin ++ line).length ↔ rest.length < line.length := by
      simp
    rw [List.map_cons, furtherLines?, furtherLines?]
    simp only [List.isEmpty_map, hmismatch, hcut, ih, hlt]
    cases mismatch? comment (!more.isEmpty || terminated) 0 rest line <;> rfl

/-- The comment of an indented marker begins behind the margin. -/
theorem commentColumn_append {margin : Text} (hmargin : ∀ b ∈ margin, Text.isIndent b) (k : Tokens)
    (lead : Text) (i : Nat) : margin.length + i < (standIn k (margin ++ lead)).commentColumn ↔
      i < (standIn k lead).commentColumn := by
  have hblank : ∀ b ∈ margin.reverse, Text.isBlank b := by
    intro b hb
    rcases Text.isIndent_iff.1 (hmargin b (by simpa using hb)) with rfl | rfl <;> rfl
  simp only [commentColumn, standIn, List.reverse_append, List.dropWhile_append]
  cases hlead : lead.reverse.dropWhile Text.isBlank with
  | nil =>
    rw [List.dropWhile_eq_nil_iff.2 hblank]
    simp
  | cons b comment =>
    simp
    omega

/-- The margin of an indented marker. -/
theorem margin_append {margin : Text} (hmargin : ∀ b ∈ margin, Text.isIndent b) (k : Tokens)
    (lead : Text) : (standIn k (margin ++ lead)).margin = margin ++ (standIn k lead).margin := by
  have hself : margin.map (fun b => if b = Text.tab then Text.tab else Text.space) = margin := by
    conv_rhs => rw [← List.map_id margin]
    refine List.map_congr_left fun b hb => ?_
    rcases Text.isIndent_iff.1 (hmargin b hb) with rfl | rfl <;> rfl
  simp only [Marker.margin, standIn, List.map_append, hself]

/-- **A header keeps its lines when its text is indented.** -/
theorem headerLines?_hang {k : Tokens} {margin : Text} (hmargin : ∀ b ∈ margin, Text.isIndent b)
    (hopener : Text.newline ∉ k.opener) (lead raw after : Text) :
    headerLines? k (margin ++ lead) (Text.hang margin raw) after
      = headerLines? k lead raw after := by
  by_cases hline : Text.newline ∉ raw
  · rw [Text.hang_of_notMem hline]
    exact headerLines?_congr_of_notMem _ _ _ _ (by simp [hopener, hline])
  · obtain ⟨u, v, rfl, hu⟩ : ∃ u v, raw = u ++ Text.newline :: v ∧ Text.newline ∉ u :=
      List.eq_append_cons_of_mem (not_not.1 hline)
    have hmore : (Text.lines v).isEmpty = false := by
      simpa using Text.lines_ne_nil v
    have hfurther := furtherLines?_append hmargin (commentColumn_append hmargin k lead)
      (standIn k lead).margin (after.head? == some Text.newline) (Text.lines v)
    have hraw : ¬ Text.newline ∉ k.opener ++ (u ++ Text.newline :: v) := by simp
    have hhung : ¬ Text.newline ∉ k.opener ++ Text.hang margin (u ++ Text.newline :: v) := by
      simp [Text.hang_append_newline hu]
    rw [headerLines?, headerLines?, if_neg hraw, if_neg hhung]
    simp only [Text.hang_append_newline hu, Text.lines_append_newline hu,
      Text.lines_indent (Text.newline_notMem_of_isIndent hmargin), List.isEmpty_map, hmore,
      Bool.false_eq_true, ite_false, margin_append hmargin, hfurther]

end Regen.Marker
