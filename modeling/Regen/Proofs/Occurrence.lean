import Mathlib.Data.List.DropRight
import Regen.Text.Search

/-!
# Where a token starts

A search answers with the first place at which a token starts, and whether one starts at a place
depends on all that follows there, not on a stretch of the text alone. So the notion used
throughout is relative: `Clear token x y` says that `token` starts nowhere in `x` **when `y`
follows**. It splits along any concatenation (`clear_append`), which is what lets a text be put
together from pieces that were searched apart.

Two pieces can be searched apart if no token straddles the seam between them. A token without
blanks never straddles a seam with a blank on one of its sides (`Clear.append_of_seam`), and that is the
reason why so many results ask for such tokens.
-/

namespace Regen.Text

/-- **The token starts nowhere** in the first text when the second one follows it. -/
def Clear (token : Text) : (x y : Text) → Prop
  | [], _ => True
  | b :: x, y => ¬ token <+: b :: (x ++ y) ∧ Clear token x y

@[simp] theorem clear_nil (token y : Text) : Clear token [] y := trivial

@[simp] theorem clear_cons (token : Text) (b : UInt8) (x y : Text) :
    Clear token (b :: x) y ↔ ¬ token <+: b :: (x ++ y) ∧ Clear token x y := Iff.rfl

/-- **Clearness splits along a concatenation**: of the first part with the second one behind it,
and of the second part. -/
theorem clear_append (token x y z : Text) :
    Clear token (x ++ y) z ↔ Clear token x (y ++ z) ∧ Clear token y z := by
  induction x with
  | nil => simp
  | cons b x ih => rw [List.cons_append, clear_cons, clear_cons, ih, List.append_assoc, and_assoc]

/-- What a token does not start in with more behind it, it does not start in with less. -/
theorem Clear.of_append {token x y z : Text} (h : Clear token x (y ++ z)) : Clear token x y := by
  induction x with
  | nil => trivial
  | cons b x ih =>
    refine ⟨fun hp => h.1 ?_, ih h.2⟩
    rw [← List.append_assoc, ← List.cons_append]
    exact hp.trans (List.prefix_append _ _)

/-- A token starts nowhere in a text exactly if it does not occur in it. -/
theorem clear_iff_not_infix {token : Text} (hne : token ≠ []) (x : Text) :
    Clear token x [] ↔ ¬ token <:+: x := by
  induction x with
  | nil => simp [hne]
  | cons b x ih => rw [clear_cons, ih, List.append_nil, List.infix_cons_iff, not_or]

/-- A token begins with its first byte. -/
theorem not_isPrefix_of_head? {token : Text} (hne : token ≠ []) {b : UInt8} (h : token.head? ≠ some b)
    (x : Text) : ¬ token <+: b :: x := by
  cases token with
  | nil => exact absurd rfl hne
  | cons c token => exact fun hp => h (congrArg some (List.cons_prefix_cons.1 hp).1)

/-- A token starts nowhere in a text without its first byte. -/
theorem clear_of_head? {token x : Text} (hne : token ≠ []) (h : ∀ b ∈ x, token.head? ≠ some b) (y : Text) :
    Clear token x y := by
  induction x with
  | nil => trivial
  | cons b x ih =>
    obtain ⟨hb, hx⟩ := List.forall_mem_cons.1 h
    exact ⟨not_isPrefix_of_head? hne hb _, ih hx⟩

/-! ## Blanks at a seam -/

/-- The bytes that are put in at the seams of a text when it is regenerated: space, tab and
line feed. -/
def IsGap (b : UInt8) : Prop := b = space ∨ b = tab ∨ b = newline

instance : DecidablePred IsGap := fun _ => inferInstanceAs (Decidable (_ ∨ _ ∨ _))

/-- Whether a token holds no space, tab or line feed. -/
def Solid (token : Text) : Prop := ∀ b ∈ token, ¬ IsGap b

instance : DecidablePred Solid := fun t => inferInstanceAs (Decidable (∀ b ∈ t, _))

/-- **A seam**: one of the two texts is empty, or there is a gap byte next to where they meet. -/
def Seam (x y : Text) : Prop :=
  x = [] ∨ y = [] ∨ (∃ b ∈ x.getLast?, IsGap b) ∨ ∃ b ∈ y.head?, IsGap b

/-- A token without gap bytes that starts a text with a seam in it lies in front of the seam. -/
theorem prefix_of_seam {token x y : Text} (ht : Solid token) (hx : x ≠ []) (hs : Seam x y)
    (h : token <+: x ++ y) : token <+: x := by
  rcases List.prefix_or_prefix_of_prefix h (List.prefix_append x y) with hp | hp
  · exact hp
  rcases hs with hs | rfl | ⟨b, hb, hg⟩ | ⟨b, hb, hg⟩
  · exact absurd hs hx
  · simpa using h
  · -- the last byte of `x` would be a byte of the token
    exact absurd hg (ht b (hp.subset (List.mem_of_getLast? hb)))
  · obtain ⟨w, rfl⟩ := hp
    match w, y, hb with
    | [], _, _ => simp
    | c :: w, d :: y, hb =>
      obtain rfl : d = b := by simpa using hb
      have hcd : c :: w <+: d :: y := (List.prefix_append_right_inj x).1 h
      obtain rfl : c = d := (List.cons_prefix_cons.1 hcd).1
      exact absurd hg (ht c (by simp))

/-! ## Texts that a token keeps out of -/

/-- **Texts are severed for a token** if it does not run from the first one into the second, wherever in the
first one it starts. -/
def Severed (token x y : Text) : Prop := ∀ v, v ≠ [] → v <:+ x → token <+: v ++ y → token <+: v

/-- Texts are severed for a token that does not hold the last byte of the first one. -/
theorem severed_of_getLast? {token x : Text} (h : ∀ c ∈ x.getLast?, c ∉ token) (y : Text) : Severed token x y := by
  intro v hv hsuffix hp
  rcases List.prefix_or_prefix_of_prefix hp (List.prefix_append v y) with htoken | htoken
  · exact htoken
  · -- the token reaches over the end of the first text
    obtain ⟨w, rfl⟩ := hsuffix
    obtain ⟨c, hc⟩ := Option.ne_none_iff_exists'.1 (mt List.getLast?_eq_none_iff.1 hv)
    rw [List.getLast?_append_of_ne_nil _ hv] at h
    exact absurd (htoken.subset (List.mem_of_getLast? hc)) (h c hc)

/-- Texts are severed for a token that does not hold the first byte of the second one. -/
theorem severed_of_head? {token y : Text} (h : ∀ c ∈ y.head?, c ∉ token) (x : Text) : Severed token x y := by
  intro v hv _ hp
  rcases List.prefix_or_prefix_of_prefix hp (List.prefix_append v y) with htoken | ⟨w, rfl⟩
  · exact htoken
  · cases w with
    | nil => simp
    | cons c w =>
      obtain ⟨z, rfl⟩ := (List.prefix_append_right_inj v).1 hp
      exact absurd (by simp) (h c rfl)

/-- A seam stays one when its left side is cut short in front. -/
theorem Seam.of_isSuffix {x y z : Text} (h : Seam x z) (hy : y <:+ x) : Seam y z := by
  rcases h with rfl | rfl | ⟨b, hb, hg⟩ | h
  · exact .inl (List.suffix_nil.1 hy)
  · exact .inr (.inl rfl)
  · cases y with
    | nil => exact .inl rfl
    | cons c y =>
      obtain ⟨w, rfl⟩ := hy
      refine .inr (.inr (.inl ⟨b, ?_, hg⟩))
      rwa [List.getLast?_append_of_ne_nil _ (List.cons_ne_nil c y)] at hb
  · exact .inr (.inr (.inr h))

/-- A seam severs texts for tokens without gap bytes. -/
theorem Seam.severed {token x y : Text} (hs : Seam x y) (ht : Solid token) : Severed token x y :=
  fun _ hv hsuffix h => prefix_of_seam ht hv (hs.of_isSuffix hsuffix) h

/-- **A text of whole lines.** -/
def Whole (t : Text) : Prop := t = [] ∨ t.getLast? = some newline

/-- **The end of a line severs texts** for tokens that lie on one line. -/
theorem Whole.severed {token x : Text} (hx : Whole x) (ht : newline ∉ token) (y : Text) :
    Severed token x y := by
  rcases hx with rfl | hx
  · exact fun v hv hsuffix _ => absurd (List.suffix_nil.1 hsuffix) hv
  · refine severed_of_getLast? (fun c hc => ?_) y
    rw [hx] at hc
    obtain rfl : newline = c := Option.some.inj hc
    exact ht

namespace Severed

variable {token x y z : Text}

/-- Severed texts stay so when the first one is cut short in front. -/
theorem of_append_left (h : Severed token (x ++ y) z) : Severed token y z :=
  fun v hv hsuffix => h v hv (hsuffix.trans (List.suffix_append x y))

/-- Severed texts stay so when the second one is cut short behind. -/
theorem of_isPrefix (h : Severed token x z) (hy : y <+: z) : Severed token x y :=
  fun v hv hsuffix hp => h v hv hsuffix (hp.trans ((List.prefix_append_right_inj v).2 hy))

end Severed

/-- **Clearness across a cut**: a token that starts nowhere in a text with some more behind it starts nowhere
in it either when there is still more behind, from which the text is severed. -/
theorem Clear.append_of_severed {token x y z : Text} (hs : Severed token (x ++ y) z)
    (h : Clear token x y) : Clear token x (y ++ z) := by
  induction x with
  | nil => trivial
  | cons b x ih =>
    refine ⟨fun hp => h.1 ?_, ih (Severed.of_append_left (x := [b]) hs) h.2⟩
    rw [← List.append_assoc, ← List.cons_append] at hp
    exact hs _ (List.cons_ne_nil b _) List.suffix_rfl hp

/-- Clearness across a seam, for a token without gap bytes. -/
theorem Clear.append_of_seam {token x y z : Text} (ht : Solid token) (hs : Seam (x ++ y) z)
    (h : Clear token x y) : Clear token x (y ++ z) := h.append_of_severed (hs.severed ht)

/-- A token without gap bytes does not start at one. -/
theorem clear_of_isGap {token x y : Text} (ht : Solid token) (hne : token ≠ [])
    (hx : ∀ b ∈ x, IsGap b) : Clear token x y := by
  induction x with
  | nil => trivial
  | cons b x ih =>
    refine ⟨fun hp => ?_, ih fun c hc => hx c (by simp [hc])⟩
    cases token with
    | nil => exact hne rfl
    | cons c token =>
      obtain rfl : c = b := (List.cons_prefix_cons.1 hp).1
      exact ht c (by simp) (hx c (by simp))

/-! ## Searching for tokens -/

/-- A search fails exactly if the token starts nowhere. -/
theorem find?_eq_none_iff {token : Text} (hne : token ≠ []) (t : Text) :
    find? token t = none ↔ Clear token t [] := by
  induction t with
  | nil => simp [find?, hne]
  | cons b t ih =>
    rw [find?, clear_cons, List.append_nil]
    split
    case isTrue h => simp [List.isPrefixOf_iff_prefix.1 h]
    case isFalse h => simp [ih, ← List.isPrefixOf_iff_prefix, h]

/-- **A search finds the first place**: in front of it the token starts nowhere. -/
theorem find?_eq_some_iff {token : Text} (hne : token ≠ []) (t : Text) (i : Nat) :
    find? token t = some i ↔
      ∃ x z, t = x ++ token ++ z ∧ x.length = i ∧ Clear token x (token ++ z) := by
  induction t generalizing i with
  | nil => simp [find?, hne]
  | cons b t ih =>
    rw [find?]
    split
    case isTrue h =>
      obtain ⟨z, hz⟩ := List.isPrefixOf_iff_prefix.1 h
      constructor
      · rintro ⟨⟩
        exact ⟨[], z, hz.symm, rfl, trivial⟩
      · rintro ⟨_ | ⟨c, x⟩, w, hw, rfl, hc⟩
        · rfl
        · simp only [List.cons_append, List.cons.injEq] at hw
          obtain ⟨rfl, rfl⟩ := hw
          rw [List.append_assoc] at h
          exact absurd (List.isPrefixOf_iff_prefix.1 h) hc.1
    case isFalse h =>
      rw [List.isPrefixOf_iff_prefix] at h
      simp only [Option.map_eq_some_iff, ih]
      constructor
      · rintro ⟨_, ⟨x, z, rfl, rfl, hc⟩, rfl⟩
        refine ⟨b :: x, z, rfl, rfl, ?_, hc⟩
        rwa [← List.append_assoc]
      · rintro ⟨_ | ⟨c, x⟩, z, hz, rfl, hc⟩
        · exact absurd ⟨z, hz.symm⟩ h
        · simp only [List.cons_append, List.cons.injEq] at hz
          exact ⟨x.length, ⟨x, z, hz.2, rfl, hc.2⟩, rfl⟩

/-- A text that holds a token is split by its first occurrence in one way. -/
theorem eq_of_clear {token x x' z z' : Text} (hne : token ≠ [])
    (h : x ++ token ++ z = x' ++ token ++ z') (hx : Clear token x (token ++ z))
    (hx' : Clear token x' (token ++ z')) : x = x' ∧ z = z' := by
  have hlen := (find?_eq_some_iff hne _ _).2 ⟨x, z, rfl, rfl, hx⟩
  rw [(find?_eq_some_iff hne _ _).2 ⟨x', z', h, rfl, hx'⟩, Option.some.injEq] at hlen
  rw [List.append_assoc, List.append_assoc] at h
  obtain ⟨rfl, hz⟩ := List.append_inj h hlen.symm
  exact ⟨rfl, List.append_cancel_left hz⟩

/-- A token starts where it is written, whatever stands in front of it. -/
theorem not_clear_append {token : Text} (hne : token ≠ []) {x z : Text} (h : token <+: z)
    (y : Text) : ¬ Clear token (x ++ z) y := by
  rw [clear_append]
  rintro ⟨-, hz⟩
  cases z with
  | nil => exact hne (List.prefix_nil.1 h)
  | cons b z => exact hz.1 (h.trans (by simp))

/-- A token that starts nowhere in a text in front of itself still starts nowhere in it when more
follows. -/
theorem Clear.append_self {token x : Text} (h : Clear token x token) (z : Text) :
    Clear token x (token ++ z) := by
  induction x with
  | nil => trivial
  | cons b x ih =>
    refine ⟨fun hp => h.1 ?_, ih h.2⟩
    rw [← List.append_assoc, ← List.cons_append] at hp
    exact List.prefix_of_prefix_length_le hp (List.prefix_append _ _) (by simp; omega)

/-- A stretch that is given as a part of the text. -/
theorem extract_append (pre w post : Text) :
    (pre ++ w ++ post).extract pre.length (pre.length + w.length) = w := by
  simp

/-- The search of a stretch of a text that is given as a part of it. -/
theorem findIn?_append (token pre w post : Text) :
    findIn? token (pre ++ w ++ post) pre.length (pre.length + w.length)
      = (find? token w).map (· + pre.length) := by
  simp [findIn?]

/-! ## Searching for bytes -/

/-- The search of a stretch for a byte, the stretch being given as a part of the text. -/
theorem byteIn?_append (b : UInt8) (pre w post : Text) :
    byteIn? b (pre ++ w ++ post) pre.length (pre.length + w.length)
      = (w.idxOf? b).map (· + pre.length) := by
  simp [byteIn?]

/-- The search of a stretch for the last place of a byte. -/
theorem lastByteIn?_append (b : UInt8) (pre w post : Text) :
    lastByteIn? b (pre ++ w ++ post) pre.length (pre.length + w.length)
      = (lastIdxOf? b w).map (· + pre.length) := by
  simp [lastByteIn?]

/-- The first place of a byte splits a text behind a part without it. -/
theorem idxOf?_eq_some {b : UInt8} {w : Text} {i : Nat} :
    w.idxOf? b = some i ↔ ∃ x z, w = x ++ b :: z ∧ x.length = i ∧ b ∉ x := by
  induction w generalizing i with
  | nil => simp
  | cons c w ih =>
    rw [List.idxOf?_cons]
    by_cases h : c = b
    · subst h
      simp only [beq_self_eq_true, ite_true, Option.some.injEq]
      constructor
      · rintro rfl
        exact ⟨[], w, rfl, rfl, List.not_mem_nil⟩
      · rintro ⟨_ | ⟨d, x⟩, z, hz, rfl, hx⟩
        · rfl
        · simp only [List.cons_append, List.cons.injEq] at hz
          exact absurd (by simp [hz.1]) hx
    · simp only [beq_iff_eq, h, ite_false, Option.map_eq_some_iff, ih]
      constructor
      · rintro ⟨_, ⟨x, z, rfl, rfl, hx⟩, rfl⟩
        exact ⟨c :: x, z, rfl, rfl, by simpa [Ne.symm h] using hx⟩
      · rintro ⟨_ | ⟨d, x⟩, z, hz, rfl, hx⟩
        · simp only [List.nil_append, List.cons.injEq] at hz
          exact absurd hz.1 h
        · simp only [List.cons_append, List.cons.injEq] at hz
          exact ⟨x.length, ⟨x, z, hz.2, rfl, fun hb => hx (by simp [hb])⟩, rfl⟩

/-- A byte has no last place exactly if it has none. -/
theorem lastIdxOf?_eq_none {b : UInt8} {w : Text} : lastIdxOf? b w = none ↔ b ∉ w := by
  induction w with
  | nil => simp [lastIdxOf?]
  | cons c w ih =>
    rw [lastIdxOf?]
    cases h : lastIdxOf? b w with
    | some i => simp [← ih, h]
    | none => by_cases hc : c = b <;> simp [hc, ← ih, h, Ne.symm]

/-- The last place of a byte splits a text in front of a part without it. -/
theorem lastIdxOf?_eq_some {b : UInt8} {w : Text} {i : Nat} :
    lastIdxOf? b w = some i ↔ ∃ x z, w = x ++ b :: z ∧ x.length = i ∧ b ∉ z := by
  induction w generalizing i with
  | nil => simp [lastIdxOf?]
  | cons c w ih =>
    rw [lastIdxOf?]
    cases h : lastIdxOf? b w with
    | some j =>
      obtain ⟨x, z, rfl, rfl, hz⟩ := ih.1 h
      simp only [Option.some.injEq]
      constructor
      · rintro rfl
        exact ⟨c :: x, z, rfl, rfl, hz⟩
      · rintro ⟨_ | ⟨d, y⟩, z', he, rfl, hz'⟩
        · simp only [List.nil_append, List.cons.injEq] at he
          exact absurd (by simp [← he.2]) hz'
        · simp only [List.cons_append, List.cons.injEq] at he
          have hy : lastIdxOf? b (x ++ b :: z) = some y.length := ih.2 ⟨y, z', he.2, rfl, hz'⟩
          simpa [h] using hy
    | none =>
      rw [lastIdxOf?_eq_none] at h
      by_cases hc : c = b
      · subst hc
        simp only [ite_true, Option.some.injEq]
        constructor
        · rintro rfl
          exact ⟨[], w, rfl, rfl, h⟩
        · rintro ⟨_ | ⟨d, y⟩, z', he, rfl, hz'⟩
          · rfl
          · simp only [List.cons_append, List.cons.injEq] at he
            exact absurd (by simp [he.2]) h
      · simp only [hc, ite_false, reduceCtorEq, false_iff]
        rintro ⟨_ | ⟨d, y⟩, z', he, rfl, hz'⟩
        · simp only [List.nil_append, List.cons.injEq] at he
          exact hc he.1
        · simp only [List.cons_append, List.cons.injEq] at he
          exact h (by simp [he.2])

/-! ## Lines -/

/-- What stands on the last line of a text, its line feed in front of it left out. -/
def lastLine (t : Text) : Text := t.rtakeWhile (· != newline)

/-- A text ends in its last line. -/
theorem lastLine_suffix (t : Text) : lastLine t <:+ t := List.rtakeWhile_suffix _ _

/-- What is written without a line feed goes on with the last line. -/
theorem lastLine_append_of_notMem (t : Text) {u : Text} (h : newline ∉ u) :
    lastLine (t ++ u) = lastLine t ++ u := by
  induction u using List.reverseRecOn with
  | nil => simp
  | append_singleton u b ih =>
    have hb : b ≠ newline := fun hb => h (by simp [hb])
    rw [lastLine, ← List.append_assoc, List.rtakeWhile_concat_pos _ _ _ (by simpa using hb),
      ← lastLine, ih fun hu => h (by simp [hu]), List.append_assoc]

/-- A line feed starts a new last line. -/
theorem lastLine_append_newline (t : Text) {u : Text} (h : newline ∉ u) :
    lastLine (t ++ newline :: u) = u := by
  rw [show t ++ newline :: u = (t ++ [newline]) ++ u by simp, lastLine_append_of_notMem _ h,
    lastLine, List.rtakeWhile_concat_neg _ _ _ (by simp), List.nil_append]

/-- Where there is a line feed, what stands in front does not matter to the last line. -/
theorem lastLine_append_of_mem (t : Text) {u : Text} (h : newline ∈ u) :
    lastLine (t ++ u) = lastLine u := by
  obtain ⟨i, hi⟩ := Option.ne_none_iff_exists'.1 (mt lastIdxOf?_eq_none.1 (not_not.2 h))
  obtain ⟨x, z, rfl, -, hz⟩ := lastIdxOf?_eq_some.1 hi
  rw [← List.append_assoc, lastLine_append_newline _ hz, lastLine_append_newline _ hz]

theorem newline_notMem_lastLine (t : Text) : newline ∉ lastLine t := fun h => by
  simpa using List.mem_rtakeWhile_imp h

/-- A text ends behind whole lines with its last line. -/
theorem exists_whole_lastLine (t : Text) : ∃ u, t = u ++ lastLine t ∧ Whole u := by
  obtain hlast | ⟨i, hlast⟩ := Option.eq_none_or_eq_some (lastIdxOf? newline t)
  · have h := lastLine_append_of_notMem [] (lastIdxOf?_eq_none.1 hlast)
    exact ⟨[], h.symm, .inl rfl⟩
  · obtain ⟨x, z, rfl, -, hz⟩ := lastIdxOf?_eq_some.1 hlast
    exact ⟨x ++ [newline], by rw [lastLine_append_newline x hz, List.append_cons], .inr (by simp)⟩

/-- The last line lies behind every line feed. -/
theorem length_lastLine_append_newline_le (t u : Text) :
    (lastLine (t ++ newline :: u)).length ≤ u.length := by
  by_cases hu : newline ∈ u
  · rw [show t ++ newline :: u = (t ++ [newline]) ++ u by simp, lastLine_append_of_mem _ hu]
    exact (lastLine_suffix u).length_le
  · rw [lastLine_append_newline t hu]

/-- The line of an offset starts as many bytes in front of it as its last line is long. -/
theorem lineStart_append (pre post : Text) :
    lineStart (pre ++ post) pre.length = pre.length - (lastLine pre).length := by
  have h := lastByteIn?_append newline [] pre post
  simp only [List.nil_append, List.length_nil, Nat.zero_add, Nat.add_zero, Option.map_id'] at h
  rw [lineStart, h]
  cases hl : lastIdxOf? newline pre with
  | none =>
    have hn := lastLine_append_of_notMem [] (lastIdxOf?_eq_none.1 hl)
    rw [List.nil_append, show lastLine [] = [] from rfl, List.nil_append] at hn
    simp [hn]
  | some i =>
    obtain ⟨x, z, rfl, rfl, hz⟩ := lastIdxOf?_eq_some.1 hl
    rw [lastLine_append_newline _ hz]
    simp only [List.length_append, List.length_cons]
    omega

/-- What stands in front of an offset on its line. -/
theorem extract_lineStart_append (pre post : Text) :
    (pre ++ post).extract (lineStart (pre ++ post) pre.length) pre.length = lastLine pre := by
  obtain ⟨x, hx⟩ := lastLine_suffix pre
  rw [lineStart_append]
  have hlen : x.length + (lastLine pre).length = pre.length := by
    rw [← List.length_append, hx]
  have hstart : pre.length - (lastLine pre).length = x.length := by omega
  rw [hstart]
  conv_lhs => rw [← hx]
  simp

/-- The last line of a text that holds no line feed from some place on. -/
theorem lineStop_append_of_notMem (pre : Text) {u : Text} (h : newline ∉ u) :
    lineStop (pre ++ u) pre.length = (pre ++ u).length := by
  have hbyte := byteIn?_append newline pre u []
  rw [List.append_nil, ← List.length_append, List.idxOf?_eq_none_iff.2 h] at hbyte
  rw [lineStop, hbyte]
  rfl

/-- The line of an offset ends with the first line feed behind it. -/
theorem lineStop_append_newline (pre post : Text) {u : Text} (h : newline ∉ u) :
    lineStop (pre ++ u ++ newline :: post) pre.length = (pre ++ u).length + 1 := by
  have hbyte := byteIn?_append newline pre (u ++ newline :: post) []
  rw [List.append_nil, ← List.length_append, idxOf?_eq_some.2 ⟨u, post, rfl, rfl, h⟩,
    ← List.append_assoc] at hbyte
  rw [lineStop, hbyte]
  simp [Nat.add_comm]

/-- A text is without line feeds, or splits at its first one. -/
theorem notMem_or_eq_newline (t : Text) :
    newline ∉ t ∨ ∃ u v, t = u ++ newline :: v ∧ newline ∉ u := by
  by_cases h : newline ∈ t
  · obtain ⟨u, v, rfl, hu⟩ := List.eq_append_cons_of_mem h
    exact .inr ⟨u, v, rfl, hu⟩
  · exact .inl h

end Regen.Text
