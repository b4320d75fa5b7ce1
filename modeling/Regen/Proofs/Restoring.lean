import Mathlib.Data.List.Nodup
import Regen.Generate
import Regen.Proofs.Occurrence

/-!
# Putting blocks back

What a renderer makes of a text with placeholders is, if it leaves them alone, a text with gaps, each with
the number of a placeholder (`Gapped`). A number may be there several times, or not at all: a loop copies its
body, a condition leaves it out. To put the blocks back is to fill all gaps at once. The blocks are put back
one after the other, though, each in the place of the first occurrence of its placeholder. Unless a
placeholder comes about where a block meets the text next to it, this closes one gap of each number
(`Holding.restore_fill`), so it comes to the same **exactly where no number is there twice**
(`Holding.restore_eq_fill_iff`).

That occurrences of placeholders are the gaps and nothing else is due to how they are written: the byte that
a placeholder begins with is in it nowhere else, and no placeholder begins another.
-/

namespace Regen

namespace Text

/-! ## Tokens that begin with a byte of their own -/

/-- **A token with a head**: the byte that it begins with is in it nowhere else. -/
def Headed (b : UInt8) (token : Text) : Prop := ∃ tail, token = b :: tail ∧ b ∉ tail

variable {b : UInt8} {token : Text}

/-- A token with a head is not empty. -/
theorem Headed.ne_nil (h : Headed b token) : token ≠ [] := by
  obtain ⟨tail, rfl, -⟩ := h
  exact List.cons_ne_nil b tail

/-- A token with a head does not start where its head is not. -/
theorem Headed.clear_of_notMem (h : Headed b token) {x : Text} (hx : b ∉ x) (y : Text) :
    Clear token x y := by
  refine clear_of_head? h.ne_nil (fun c hc hhead => hx ?_) y
  obtain ⟨tail, rfl, -⟩ := h
  rwa [Option.some.inj hhead]

/-- **A token does not reach up to its head**: where it starts nowhere in a text, it starts nowhere in it
either when what follows begins with its head. -/
theorem Headed.clear_append_cons (h : Headed b token) {x : Text} (hx : Clear token x []) (y : Text) :
    Clear token x (b :: y) := by
  obtain ⟨tail, rfl, hb⟩ := h
  induction x with
  | nil => trivial
  | cons c x ih =>
    refine ⟨fun hp => ?_, ih hx.2⟩
    obtain ⟨rfl, htail⟩ := List.cons_prefix_cons.1 hp
    rcases List.prefix_or_prefix_of_prefix htail (List.prefix_append x (b :: y)) with hin | ⟨w, rfl⟩
    · exact hx.1 (List.cons_prefix_cons.2 ⟨rfl, by simpa using hin⟩)
    · -- the token would go on behind the text with its head
      cases w with
      | nil => exact hx.1 (by simp)
      | cons c w =>
        obtain ⟨rfl, -⟩ := List.cons_prefix_cons.1 ((List.prefix_append_right_inj x).1 htail)
        exact hb (by simp)

/-! ## Replacing one occurrence -/

/-- A replacement lies behind what the token does not start in. -/
theorem replaceFirst_append {r x y : Text} (h : Clear token x y) :
    replaceFirst token r (x ++ y) = x ++ replaceFirst token r y := by
  induction x with
  | nil => rfl
  | cons c x ih =>
    rw [List.cons_append, replaceFirst, if_neg fun hp => h.1 (List.isPrefixOf_iff_prefix.1 hp), ih h.2,
      List.cons_append]

/-- A token at the front is replaced. -/
theorem replaceFirst_self_append (hne : token ≠ []) (r y : Text) :
    replaceFirst token r (token ++ y) = r ++ y := by
  cases token with
  | nil => exact absurd rfl hne
  | cons c token =>
    rw [List.cons_append, replaceFirst, ← List.cons_append,
      if_pos (List.isPrefixOf_iff_prefix.2 (List.prefix_append _ y)), List.drop_left]

/-- Where the token does not occur, nothing is replaced. -/
theorem replaceFirst_of_clear (hne : token ≠ []) (r : Text) {x : Text} (h : Clear token x []) :
    replaceFirst token r x = x := by
  rw [← List.append_nil x, replaceFirst_append h]
  cases token with
  | nil => exact absurd rfl hne
  | cons c token => rfl

/-! ## Written numbers -/

/-- The bytes of two strings, one behind the other. -/
theorem ofString_append (a b : String) : ofString (a ++ b) = ofString a ++ ofString b := by
  simp [ofString, String.toByteArray_append]

/-- A number is written in ASCII digits. -/
theorem isDigit_of_mem_repr {n : Nat} (h : b ∈ ofString n.repr) : 0x30 ≤ b ∧ b ≤ 0x39 := by
  rw [Nat.repr_eq_ofList_toDigits, ofString, String.toUTF8_eq_toByteArray, String.toByteArray_ofList,
    List.utf8Encode] at h
  obtain ⟨c, hc, hb⟩ : ∃ c ∈ Nat.toDigits 10 n, b ∈ String.utf8EncodeChar c := by simpa using h
  have hdigit := Nat.isDigit_of_mem_toDigits (by decide) (by decide) hc
  obtain ⟨hlow, hhigh⟩ : 48 ≤ c.val.toNat ∧ c.val.toNat ≤ 57 := by
    simpa [Char.isDigit, UInt32.le_iff_toNat_le] using hdigit
  have hsize : c.utf8Size = 1 :=
    Char.utf8Size_eq_one_iff.2 (UInt32.le_iff_toNat_le.2 (hhigh.trans (by decide)))
  rw [String.utf8EncodeChar_eq_singleton hsize, List.mem_singleton] at hb
  have hvalue : b.toNat = c.val.toNat := by
    rw [hb, UInt32.toNat_toUInt8, Nat.mod_eq_of_lt (by omega)]
  exact ⟨UInt8.le_iff_toNat_le.2 (hvalue ▸ hlow), UInt8.le_iff_toNat_le.2 (hvalue ▸ hhigh)⟩

/-- A number is told by how it is written. -/
theorem ofString_repr_injective : Function.Injective fun n : Nat => ofString n.repr := by
  intro m n h
  have hbytes : m.repr.toByteArray = n.repr.toByteArray := ByteArray.ext (Array.toList_inj.1 h)
  have hdigits : Nat.toDigits 10 m = Nat.toDigits 10 n := by
    simpa using congrArg String.toList (String.toByteArray_inj.1 hbytes)
  simpa using congrArg (Nat.ofDigitChars 10 · 0) hdigits

end Text

/-! ## Placeholders -/

/-- What a placeholder says: its number between fixed texts. -/
theorem placeholder_eq (n : Nat) : placeholder n
    = Text.ofString "°#@[COGMARK_" ++ (Text.ofString n.repr ++ Text.ofString "]+&*") := by
  rw [placeholder]
  simp only [Text.ofString_append, List.append_assoc]
  rfl

/-- The byte that placeholders begin with. -/
def placeholderHead : UInt8 := 0xC2

/-- **A placeholder has a head.** -/
theorem headed_placeholder (n : Nat) : Text.Headed placeholderHead (placeholder n) := by
  rw [placeholder_eq]
  refine ⟨(Text.ofString "°#@[COGMARK_").tail ++ (Text.ofString n.repr ++ Text.ofString "]+&*"),
    rfl, ?_⟩
  simp only [List.mem_append, not_or]
  refine ⟨by decide, fun h => ?_, by decide⟩
  exact absurd (Text.isDigit_of_mem_repr h).2 (by decide)

/-- Of two numbers in front of a byte that is no digit, one is not the beginning of the other. -/
theorem placeholder_prefix_iff {m n : Nat} {y : Text} : placeholder m <+: placeholder n ++ y ↔ m = n := by
  constructor
  · rw [placeholder_eq, placeholder_eq, List.append_assoc, List.prefix_append_right_inj,
      List.append_assoc]
    rintro ⟨w, hw⟩
    have hbracket : ∀ k : Nat, (0x5D : UInt8) ∉ Text.ofString k.repr := fun k h =>
      absurd (Text.isDigit_of_mem_repr h).2 (by decide)
    have hback : Text.ofString "]+&*" = 0x5D :: Text.ofString "+&*" := by decide
    -- the digits are what stands in front of the first bracket
    have hdigits : ∀ (k : Nat) (z : Text),
        (Text.ofString k.repr ++ 0x5D :: z).takeWhile (· ≠ 0x5D) = Text.ofString k.repr := by
      intro k z
      rw [List.takeWhile_append_of_pos fun b hb => by simpa using ne_of_mem_of_not_mem hb (hbracket k)]
      simp
    rw [hback, List.append_assoc, List.cons_append, List.cons_append] at hw
    have hfront := congrArg (List.takeWhile (· ≠ 0x5D)) hw
    rw [hdigits, hdigits] at hfront
    exact Text.ofString_repr_injective hfront
  · rintro rfl
    exact List.prefix_append _ _

/-- A text in which no placeholder occurs. -/
def Text.Unheld (t : Text) : Prop := ∀ n, ¬ placeholder n <:+: t

/-- Without the byte that placeholders begin with there are none. -/
theorem Text.unheld_of_notMem {t : Text} (h : placeholderHead ∉ t) : t.Unheld := by
  rintro n ⟨x, y, rfl⟩
  obtain ⟨tail, htail, -⟩ := headed_placeholder n
  exact h (by simp [htail])

/-- What is a part of a text without placeholders has none. -/
theorem Text.Unheld.of_infix {t u : Text} (h : t.Unheld) (hu : u <:+: t) : u.Unheld :=
  fun n hn => h n (hn.trans hu)

/-! ## Texts with numbered gaps -/

/-- **A text with gaps**, each with a number. -/
inductive Gapped where
  /-- A text, with no gap behind it. -/
  | last (x : Text)
  /-- A text, a gap behind it, and what stands behind the gap. -/
  | gap (x : Text) (n : Nat) (rest : Gapped)

namespace Gapped

/-- The text with something put in each gap. -/
def fill (f : Nat → Text) : Gapped → Text
  | last x => x
  | gap x n rest => x ++ f n ++ fill f rest

/-- The numbers of the gaps, in order. -/
def numbers : Gapped → List Nat
  | last _ => []
  | gap _ n rest => n :: numbers rest

/-- The text with something put in front of it. -/
def prepend (y : Text) : Gapped → Gapped
  | last x => last (y ++ x)
  | gap x n rest => gap (y ++ x) n rest

/-- The text with its first gap of a number closed by some text. -/
def close (n : Nat) (y : Text) : Gapped → Gapped
  | last x => last x
  | gap x m rest => if m = n then rest.prepend (x ++ y) else gap x m (close n y rest)

/-- What stands between the gaps has no placeholder in it. -/
def Clean : Gapped → Prop
  | last x => x.Unheld
  | gap x _ rest => x.Unheld ∧ Clean rest

variable {f : Nat → Text}

@[simp] theorem fill_prepend (y : Text) (g : Gapped) : (g.prepend y).fill f = y ++ g.fill f := by
  cases g <;> simp [prepend, fill]

@[simp] theorem numbers_prepend (y : Text) (g : Gapped) : (g.prepend y).numbers = g.numbers := by
  cases g <;> rfl

/-- A gap that is closed by what it was to be filled with makes no difference. -/
theorem fill_close (n : Nat) (g : Gapped) : (g.close n (f n)).fill f = g.fill f := by
  induction g with
  | last x => rfl
  | gap x m rest ih =>
    rw [close]
    split
    · rename_i hm
      rw [fill_prepend, fill, hm]
    · rw [fill, fill, ih]

/-- One gap of the number is closed, if there is one. -/
theorem numbers_close (n : Nat) (y : Text) (g : Gapped) :
    (g.close n y).numbers = g.numbers.erase n := by
  induction g with
  | last x => rfl
  | gap x m rest ih =>
    rw [close, numbers, List.erase_cons]
    by_cases hm : m = n
    · rw [if_pos hm, if_pos (by simp [hm]), numbers_prepend]
    · rw [if_neg hm, if_neg (by simp [hm]), numbers, ih]

/-- What stands between the gaps has no placeholder in it if there is none once they are filled. -/
theorem clean_of_fill {g : Gapped} (h : (g.fill f).Unheld) : g.Clean := by
  induction g with
  | last x => exact h
  | gap x n rest ih =>
    refine ⟨h.of_infix ?_, ih (h.of_infix (List.suffix_append _ _).isInfix)⟩
    exact ((List.prefix_append x _).trans (List.prefix_append _ _)).isInfix

/-- A placeholder starts only in gaps of its number. -/
theorem replaceFirst_fill {g : Gapped} (hg : g.Clean) (n : Nat) (y : Text) :
    Text.replaceFirst (placeholder n) y (g.fill placeholder) = (g.close n y).fill placeholder := by
  have hne := (headed_placeholder n).ne_nil
  induction g with
  | last x => exact Text.replaceFirst_of_clear hne y ((Text.clear_iff_not_infix hne x).2 (hg n))
  | gap x m rest ih =>
    obtain ⟨hx, hrest⟩ := hg
    obtain ⟨tail, htail, hhead⟩ := headed_placeholder m
    have hfront : Text.Clear (placeholder n) x (placeholder m ++ rest.fill placeholder) := by
      rw [htail, List.cons_append]
      exact (headed_placeholder n).clear_append_cons ((Text.clear_iff_not_infix hne x).2 (hx n)) _
    rw [fill, List.append_assoc, Text.replaceFirst_append hfront, close]
    split
    · rename_i hm
      rw [hm, Text.replaceFirst_self_append hne, fill_prepend, List.append_assoc]
    · rename_i hm
      have hskip : Text.Clear (placeholder n) (placeholder m) (rest.fill placeholder) := by
        have hstart : ¬ placeholder n <+: placeholder m ++ rest.fill placeholder :=
          fun h => hm (placeholder_prefix_iff.1 h).symm
        rw [htail] at hstart ⊢
        exact ⟨hstart, (headed_placeholder n).clear_of_notMem hhead _⟩
      rw [Text.replaceFirst_append hskip, ih hrest, fill, List.append_assoc]

/-- A gap that is left shows. -/
theorem infix_fill {g : Gapped} {n : Nat} (h : n ∈ g.numbers) : f n <:+: g.fill f := by
  induction g with
  | last x => cases h
  | gap x m rest ih =>
    rcases List.mem_cons.1 h with rfl | h
    · exact List.infix_append _ _ _
    · exact (ih h).trans (List.suffix_append _ _).isInfix

/-- A text without gaps is the same whatever they are filled with. -/
theorem fill_congr {f' : Nat → Text} {g : Gapped} (h : ∀ n ∈ g.numbers, f n = f' n) :
    g.fill f = g.fill f' := by
  induction g with
  | last x => rfl
  | gap x m rest ih =>
    rw [fill, fill, h m (by simp [numbers]), ih fun n hn => h n (by simp [numbers, hn])]

end Gapped

namespace Holding

/-- **Putting blocks back closes one gap of each number**, if no placeholder comes about when all gaps are
filled. -/
theorem restore_fill {source : Text} {f : Nat → Text} {spans : List Span} {n : Nat} {g : Gapped}
    (hf : ∀ i s, spans[i]? = some s → f (n + i) = s.of source) (hg : (g.fill f).Unheld) :
    ∃ left : Gapped, restore source n spans (g.fill placeholder) = left.fill placeholder ∧
      left.fill f = g.fill f ∧
      ∀ k, left.numbers.count k
        = g.numbers.count k - if n ≤ k ∧ k < n + spans.length then 1 else 0 := by
  induction spans generalizing n g with
  | nil =>
    refine ⟨g, rfl, rfl, fun k => ?_⟩
    rw [if_neg (by simp), Nat.sub_zero]
  | cons s spans ih =>
    have hfirst : f n = s.of source := hf 0 s rfl
    have hclosed : (g.close n (s.of source)).fill f = g.fill f := hfirst ▸ Gapped.fill_close n g
    obtain ⟨left, hrestore, hfill, hcount⟩ := ih (n := n + 1) (g := g.close n (s.of source))
      (fun i s' hs' => by rw [Nat.add_right_comm]; exact hf (i + 1) s' hs') (hclosed ▸ hg)
    refine ⟨left, ?_, hfill.trans hclosed, fun k => ?_⟩
    · rw [restore, Gapped.replaceFirst_fill (Gapped.clean_of_fill hg), hrestore]
    · rw [hcount, Gapped.numbers_close, List.count_erase, List.length_cons]
      by_cases hk : k = n
      · subst hk
        rw [if_pos (by simp), if_neg (by omega), if_pos (by omega), Nat.sub_zero]
      · have hrange : n + 1 ≤ k ∧ k < n + 1 + spans.length ↔ n ≤ k ∧ k < n + (spans.length + 1) := by
          omega
        rw [if_neg (by simpa using Ne.symm hk), Nat.sub_zero, if_congr hrange rfl rfl]

/-- **Putting blocks back fills all gaps** and leaves no placeholder exactly if no number is there twice
and none comes about when all gaps are filled. -/
theorem restore_eq_fill_iff {source : Text} {f : Nat → Text} {spans : List Span} {g : Gapped}
    (hf : ∀ i s, spans[i]? = some s → f i = s.of source)
    (hbound : ∀ k ∈ g.numbers, k < spans.length) :
    (restore source 0 spans (g.fill placeholder) = g.fill f ∧
      (restore source 0 spans (g.fill placeholder)).Unheld) ↔
      g.numbers.Nodup ∧ (g.fill f).Unheld := by
  constructor
  · rintro ⟨heq, hunheld⟩
    have hg : (g.fill f).Unheld := heq ▸ hunheld
    obtain ⟨left, hrestore, -, hcount⟩ := restore_fill (n := 0) (by simpa using hf) hg
    refine ⟨List.nodup_iff_count_le_one.2 fun k => ?_, hg⟩
    by_contra htwice
    -- a second gap of the number would be left, and its placeholder would show
    have hleft : k ∈ left.numbers := by
      rw [← List.count_pos_iff, hcount]
      split <;> omega
    exact hunheld k (hrestore ▸ Gapped.infix_fill hleft)
  · rintro ⟨hnodup, hg⟩
    obtain ⟨left, hrestore, hfill, hcount⟩ := restore_fill (n := 0) (by simpa using hf) hg
    have hnone : ∀ k ∈ left.numbers, placeholder k = f k := by
      intro k hk
      have hpos := List.count_pos_iff.2 hk
      rw [hcount] at hpos
      have hmem : k ∈ g.numbers := List.count_pos_iff.1 (by omega)
      have hone := List.nodup_iff_count_le_one.1 hnodup k
      rw [if_pos ⟨Nat.zero_le k, by simpa using hbound k hmem⟩] at hpos
      omega
    rw [hrestore, Gapped.fill_congr hnone, hfill]
    exact ⟨rfl, hg⟩

end Holding

namespace Document

/-- What stands in the text for the block held aside under a number. -/
def heldText (d : Document) (k : Nat) : Text :=
  ((Holding.ofDocument d).held.reverse[k]?).elim [] (Span.of d.source)

/-- The block held aside under a number is what stands in the text for it. -/
theorem heldText_eq {d : Document} {k : Nat} {s : Span}
    (h : (Holding.ofDocument d).held.reverse[k]? = some s) : d.heldText k = s.of d.source := by
  rw [heldText, h]
  rfl

/-- **What becomes of placeholders that a renderer leaves alone**, wherever it puts them and however often,
if no placeholder comes about where a block meets the text next to it: one of each number is replaced by
the block, and all others are left. So all of them are replaced, as if at once, exactly if no number is
there twice. -/
theorem renderedDocument_eq_fill_iff {run : Run} {d : Document} {g : Gapped}
    (hrender : run.render (Holding.ofDocument d).buffer = .ok (g.fill placeholder))
    (hbound : ∀ k ∈ g.numbers, k < (Holding.ofDocument d).held.length) :
    ∃ restored, run.renderedDocument d = .ok restored ∧
      (restored = g.fill d.heldText ∧ restored.Unheld ↔
        g.numbers.Nodup ∧ (g.fill d.heldText).Unheld) ∧
      ((g.fill d.heldText).Unheld → ∃ left : Gapped, restored = left.fill placeholder ∧
        left.fill d.heldText = g.fill d.heldText ∧
        ∀ k, left.numbers.count k = g.numbers.count k - 1) := by
  have hheld : ∀ i s, (Holding.ofDocument d).held.reverse[i]? = some s →
      d.heldText i = s.of d.source := fun _ _ => heldText_eq
  refine ⟨Holding.restore d.source 0 (Holding.ofDocument d).held.reverse (g.fill placeholder), ?_,
    Holding.restore_eq_fill_iff hheld (by simpa using hbound), fun hg => ?_⟩
  · rw [Run.renderedDocument]
    simp only [hrender]
  · obtain ⟨left, hrestore, hfill, hcount⟩ := Holding.restore_fill (n := 0) (by simpa using hheld) hg
    refine ⟨left, hrestore, hfill, fun k => ?_⟩
    rw [hcount]
    split
    · rfl
    · -- a number that no block has is not there
      rename_i hk
      have hnone : k ∉ g.numbers := fun hmem => hk ⟨Nat.zero_le k, by simpa using hbound k hmem⟩
      rw [List.count_eq_zero.2 hnone]

/-- A document of two generation blocks on one line. -/
def row : Document :=
  ((parse .standard "[[[ a ]]] [[[ end ]]] [[[ b ]]] [[[ end ]]]").toOption).getD
    { source := [], marks := [], edits := [] }

/-- A renderer that leaves out the first placeholder and writes around the second one has the second
block put back there. -/
theorem renderedDocument_eq_fill_row :
    let run : Run := { render := fun _ => .ok ((Gapped.gap "x" 1 (.last "y")).fill placeholder)
                       settings := .standard, removeMarkers := false, overrides := [] }
    (∀ k ∈ (Gapped.gap "x" 1 (.last "y")).numbers, k < (Holding.ofDocument row).held.length) ∧
      ∃ restored, run.renderedDocument row = .ok restored ∧ restored = "x[[[ b ]]] [[[ end ]]]y" ∧
        restored.Unheld := by
  intro run
  have hbound : ∀ k ∈ (Gapped.gap "x" 1 (.last "y")).numbers,
      k < (Holding.ofDocument row).held.length := by decide +kernel
  have hfill : (Gapped.gap "x" 1 (.last "y")).fill row.heldText = "x[[[ b ]]] [[[ end ]]]y" := by
    decide +kernel
  have hunheld : ((Gapped.gap "x" 1 (.last "y")).fill row.heldText).Unheld :=
    Text.unheld_of_notMem (by rw [hfill]; decide +kernel)
  have hrender : run.render (Holding.ofDocument row).buffer
      = .ok ((Gapped.gap "x" 1 (.last "y")).fill placeholder) := rfl
  obtain ⟨restored, hrestored, hiff, -⟩ := renderedDocument_eq_fill_iff hrender hbound
  obtain ⟨heq, hnone⟩ := hiff.2 ⟨by decide, hunheld⟩
  exact ⟨hbound, restored, hrestored, heq.trans hfill, hnone⟩

/-- **A placeholder that is there twice is put back once**: the second one is left in the text. -/
theorem not_renderedDocument_eq_fill :
    ¬ ∀ (s : Settings) (t : Text) (d : Document), parse s t = .ok d → t.Unheld →
      ∀ (run : Run) (g : Gapped), g.Clean →
        (∀ k ∈ g.numbers, k < (Holding.ofDocument d).held.length) →
        run.render (Holding.ofDocument d).buffer = .ok (g.fill placeholder) →
        run.renderedDocument d = .ok (g.fill d.heldText) := by
  intro h
  have hempty : Text.Unheld [] := Text.unheld_of_notMem List.not_mem_nil
  have hfill := h .standard "[[[ a ]]] [[[ end ]]] [[[ b ]]] [[[ end ]]]" row (by rfl)
    (Text.unheld_of_notMem (by decide +kernel))
    { render := fun _ => .ok ((Gapped.gap [] 0 (.gap [] 0 (.last []))).fill placeholder)
      settings := .standard, removeMarkers := false, overrides := [] }
    (.gap [] 0 (.gap [] 0 (.last []))) ⟨hempty, hempty, hempty⟩ (by decide +kernel) rfl
  revert hfill
  decide +kernel

end Document

end Regen
