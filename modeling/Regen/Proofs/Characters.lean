import Mathlib.Data.List.Infix
import Regen.Proofs.Occurrence

/-!
# The bytes of characters

A text is bytes, but what a reader sees, and what may be cut out of a text, is characters. Every
character is written as a leading byte and continuation bytes behind it (`Text.utf8EncodeChar_eq_cons`),
so the leading bytes alone tell where characters start and how many there are. And no
character is written like the beginning of another one, so characters are read back from their bytes
in one way only, also from bytes with others behind them (`Text.encode_isPrefix_iff`).

Both together say where a text can be cut: **at a character start, and nowhere else, both parts are
written in characters again** (`Text.isCharStart_encode_iff`). Tokens are written in characters, so a
text can be cut in front of every token in it, and behind it (`Text.Encoded.of_token`).
-/

namespace Regen.Text

/-! ## Single characters -/

/-- **A character is written as one byte that leads and others that continue**, of which there are none
behind a byte of ASCII. -/
theorem utf8EncodeChar_eq_cons (c : Char) : ∃ b rest, String.utf8EncodeChar c = b :: rest ∧
    isContinuation b = false ∧ (∀ b' ∈ rest, isContinuation b' = true) ∧ (b < 0x80 → rest = []) := by
  have hbyte : ∀ {n : Nat}, n < 256 → (UInt8.ofNat n).toNat = n := fun h => Nat.mod_eq_of_lt h
  have hleads : ∀ {n : Nat}, 0xC0 ≤ n → n < 256 →
      isContinuation (UInt8.ofNat n) = false ∧ ¬ UInt8.ofNat n < 0x80 := by
    intro n hn hlt
    simp only [isContinuation, Bool.and_eq_false_iff, decide_eq_false_iff_not, UInt8.lt_iff_toNat_lt,
      UInt8.le_iff_toNat_le, hbyte hlt, UInt8.reduceToNat]
    omega
  have hcontinues : ∀ n : Nat, isContinuation (UInt8.ofNat (n % 64 + 128)) = true := by
    intro n
    simp only [isContinuation, Bool.and_eq_true, decide_eq_true_eq, UInt8.lt_iff_toNat_lt,
      UInt8.le_iff_toNat_le, hbyte (show n % 64 + 128 < 256 by omega), UInt8.reduceToNat]
    omega
  unfold String.utf8EncodeChar
  dsimp only
  split
  · refine ⟨_, _, rfl, ?_, by simp, fun _ => rfl⟩
    simp only [isContinuation, Bool.and_eq_false_iff, decide_eq_false_iff_not, UInt8.le_iff_toNat_le,
      hbyte (show c.val.toNat < 256 by omega), UInt8.reduceToNat]
    omega
  · split
    · obtain ⟨hlead, hhigh⟩ := @hleads (c.val.toNat / 64 % 32 + 192) (by omega) (by omega)
      exact ⟨_, _, rfl, hlead, List.forall_mem_singleton.2 (hcontinues _), fun h => absurd h hhigh⟩
    · split
      · obtain ⟨hlead, hhigh⟩ := @hleads (c.val.toNat / 4096 % 16 + 224) (by omega) (by omega)
        exact ⟨_, _, rfl, hlead, List.forall_mem_cons.2 ⟨hcontinues _,
          List.forall_mem_singleton.2 (hcontinues _)⟩, fun h => absurd h hhigh⟩
      · obtain ⟨hlead, hhigh⟩ := @hleads (c.val.toNat / 262144 % 8 + 240) (by omega) (by omega)
        exact ⟨_, _, rfl, hlead, List.forall_mem_cons.2 ⟨hcontinues _, List.forall_mem_cons.2
          ⟨hcontinues _, List.forall_mem_singleton.2 (hcontinues _)⟩⟩, fun h => absurd h hhigh⟩

/-- **No character is written like the beginning of another one.** -/
theorem eq_of_utf8EncodeChar_append {c d : Char} {x y : Text}
    (h : String.utf8EncodeChar c ++ x = String.utf8EncodeChar d ++ y) : c = d := by
  have hread : ∀ (e : Char) (z : Text),
      (String.utf8EncodeChar e ++ z).toByteArray.utf8DecodeChar? 0 = some e := by
    intro e z
    rw [List.toByteArray_append]
    exact ByteArray.utf8DecodeChar?_utf8EncodeChar_append
  have hc := hread c x
  rw [h, hread d y] at hc
  exact (Option.some.inj hc).symm

/-! ## Texts written in characters -/

/-- The bytes of some characters. -/
def encode (cs : List Char) : Text := cs.flatMap String.utf8EncodeChar

@[simp] theorem encode_nil : encode [] = [] := rfl

@[simp] theorem encode_cons (c : Char) (cs : List Char) :
    encode (c :: cs) = String.utf8EncodeChar c ++ encode cs := List.flatMap_cons

@[simp] theorem encode_append (cs ds : List Char) : encode (cs ++ ds) = encode cs ++ encode ds :=
  List.flatMap_append

@[simp] theorem encode_eq_nil_iff {cs : List Char} : encode cs = [] ↔ cs = [] := by
  cases cs <;> simp

/-- A string is written character by character. -/
theorem ofString_eq_encode (s : String) : ofString s = encode s.toList := by
  rw [ofString, String.toUTF8_eq_toByteArray]
  conv_lhs => rw [← String.ofList_toList (s := s)]
  rw [String.toByteArray_ofList, List.utf8Encode, List.toList_data_toByteArray]
  rfl

/-- **Characters are read back in one way**, also where more follows. -/
theorem encode_isPrefix_iff {cs ds : List Char} : encode cs <+: encode ds ↔ cs <+: ds := by
  constructor
  · intro h
    induction cs generalizing ds with
    | nil => exact List.nil_prefix
    | cons c cs ih =>
      cases ds with
      | nil => simp at h
      | cons d ds =>
        obtain ⟨z, hz⟩ := h
        rw [encode_cons, encode_cons, List.append_assoc] at hz
        obtain rfl := eq_of_utf8EncodeChar_append hz
        exact List.cons_prefix_cons.2 ⟨rfl, ih ⟨z, List.append_cancel_left hz⟩⟩
  · rintro ⟨es, rfl⟩
    exact ⟨encode es, (encode_append cs es).symm⟩

theorem encode_injective : Function.Injective encode := fun _ _ h =>
  (encode_isPrefix_iff.1 (h ▸ List.prefix_rfl)).eq_of_length_le
    (encode_isPrefix_iff.1 (h ▸ List.prefix_rfl)).length_le

/-- Every character has one leading byte. -/
@[simp] theorem charCount_encode (cs : List Char) : charCount (encode cs) = cs.length := by
  induction cs with
  | nil => rfl
  | cons c cs ih =>
    obtain ⟨b, rest, hwritten, hlead, hcontinue, -⟩ := utf8EncodeChar_eq_cons c
    have hrest : rest.countP (!isContinuation ·) = 0 :=
      List.countP_eq_zero.2 fun b' hb' => by simp [hcontinue b' hb']
    rw [charCount] at ih ⊢
    simp [hwritten, hlead, hrest, ih]

/-- **A text written in characters.** -/
def Encoded (t : Text) : Prop := ∃ cs, t = encode cs

theorem encoded_ofString (s : String) : (ofString s).Encoded := ⟨s.toList, ofString_eq_encode s⟩

/-! ## Where characters start -/

/-- Characters start in the second of two texts where they start in it. -/
theorem isCharStart_append_add (x y : Text) (i : Nat) :
    isCharStart (x ++ y) (x.length + i) = isCharStart y i := by
  rw [isCharStart, List.getElem?_append_right (Nat.le_add_right ..), Nat.add_sub_cancel_left, isCharStart]
  cases y[i]? with
  | none => simp [List.length_append]
  | some b => rfl

/-- The first character of a text starts at its beginning. -/
theorem isCharStart_append {x y : Text} : isCharStart (x ++ y) x.length = true ↔
    ∀ b ∈ y.head?, isContinuation b = false := by
  cases y with
  | nil => simp [isCharStart]
  | cons b y => simp [isCharStart]

/-- Nothing starts behind the end of a text. -/
theorem le_length_of_isCharStart {t : Text} {i : Nat} (h : isCharStart t i = true) : i ≤ t.length := by
  unfold isCharStart at h
  cases hb : t[i]? with
  | none =>
    rw [hb] at h
    exact (beq_iff_eq.1 h).le
  | some b => exact (List.getElem?_eq_some_iff.1 hb).1.le

/-- The first byte of characters is a leading one. -/
theorem isContinuation_of_head?_encode {cs : List Char} : ∀ b ∈ (encode cs).head?, isContinuation b = false := by
  cases cs with
  | nil => simp
  | cons c cs =>
    obtain ⟨b, rest, hwritten, hlead, -⟩ := utf8EncodeChar_eq_cons c
    simp [hwritten, hlead]

/-- **A text can be cut at the starts of its characters**, and at its end. -/
theorem isCharStart_encode_iff {cs : List Char} {i : Nat} : isCharStart (encode cs) i = true ↔
    ∃ front back, cs = front ++ back ∧ i = (encode front).length := by
  constructor
  · intro h
    induction cs generalizing i with
    | nil =>
      refine ⟨[], [], rfl, ?_⟩
      simpa using le_length_of_isCharStart h
    | cons c cs ih =>
      obtain ⟨b, rest, hwritten, -, hcontinue, -⟩ := utf8EncodeChar_eq_cons c
      rcases Nat.lt_or_ge i (String.utf8EncodeChar c).length with hi | hi
      · -- inside of the first character there are continuation bytes only
        cases i with
        | zero => exact ⟨[], c :: cs, rfl, rfl⟩
        | succ i =>
          rw [hwritten, List.length_cons, Nat.succ_lt_succ_iff] at hi
          have hbyte : (encode (c :: cs))[i + 1]? = some rest[i] := by
            rw [encode_cons, hwritten, List.cons_append, List.getElem?_cons_succ,
              List.getElem?_append_left hi, List.getElem?_eq_getElem hi]
          rw [isCharStart, hbyte] at h
          simp [hcontinue _ (List.getElem_mem hi)] at h
      · obtain ⟨j, rfl⟩ := Nat.exists_eq_add_of_le hi
        rw [encode_cons, isCharStart_append_add] at h
        obtain ⟨front, back, rfl, rfl⟩ := ih h
        exact ⟨c :: front, back, rfl, by simp⟩
  · rintro ⟨front, back, rfl, rfl⟩
    rw [encode_append]
    exact isCharStart_append.2 isContinuation_of_head?_encode

namespace Encoded

variable {t x y z : Text}

theorem nil : Encoded [] := ⟨[], rfl⟩

/-- Texts written in characters are put together. -/
theorem append (hx : x.Encoded) (hy : y.Encoded) : (x ++ y).Encoded := by
  obtain ⟨cs, rfl⟩ := hx
  obtain ⟨ds, rfl⟩ := hy
  exact ⟨cs ++ ds, (encode_append cs ds).symm⟩

/-- **What follows characters is written in characters.** -/
theorem of_append (h : (x ++ y).Encoded) (hx : x.Encoded) : y.Encoded := by
  obtain ⟨ds, hds⟩ := h
  obtain ⟨cs, rfl⟩ := hx
  obtain ⟨es, rfl⟩ := encode_isPrefix_iff.1 ⟨y, hds⟩
  rw [encode_append] at hds
  exact ⟨es, List.append_cancel_left hds⟩

/-- **Both sides of a character start** are written in characters. -/
theorem isCharStart_iff (h : (x ++ y).Encoded) :
    isCharStart (x ++ y) x.length = true ↔ x.Encoded ∧ y.Encoded := by
  obtain ⟨cs, hcs⟩ := h
  constructor
  · intro hstart
    rw [hcs] at hstart
    obtain ⟨front, back, rfl, hlength⟩ := isCharStart_encode_iff.1 hstart
    rw [encode_append] at hcs
    obtain ⟨rfl, rfl⟩ := List.append_inj hcs hlength
    exact ⟨⟨front, rfl⟩, ⟨back, rfl⟩⟩
  · rintro ⟨-, ⟨back, rfl⟩⟩
    exact isCharStart_append.2 isContinuation_of_head?_encode

/-- A text can be cut where a leading byte follows. -/
theorem of_head? (h : (x ++ y).Encoded) (hy : ∀ b ∈ y.head?, isContinuation b = false) :
    x.Encoded ∧ y.Encoded := h.isCharStart_iff.1 (isCharStart_append.2 hy)

/-- **A text can be cut in front of a token and behind it.** -/
theorem of_token (h : (x ++ y ++ z).Encoded) (hy : y.Encoded) (hne : y ≠ []) :
    x.Encoded ∧ z.Encoded := by
  have hhead : ∀ b ∈ (y ++ z).head?, isContinuation b = false := by
    obtain ⟨cs, rfl⟩ := hy
    rw [List.head?_append_of_ne_nil _ hne]
    exact isContinuation_of_head?_encode
  rw [List.append_assoc] at h
  obtain ⟨hx, hyz⟩ := h.of_head? hhead
  exact ⟨hx, hyz.of_append hy⟩

/-- A byte of ASCII is a character. -/
theorem singleton {b : UInt8} (hb : b < 0x80) : Encoded [b] := by
  have hlt : b.toNat < 0x80 := UInt8.lt_iff_toNat_lt.1 hb
  refine ⟨[Char.ofNat b.toNat], ?_⟩
  have hvalue : (Char.ofNat b.toNat).toNat = b.toNat := by
    rw [Char.ofNat, dif_pos (.inl (by omega))]
    rfl
  have hwritten : String.utf8EncodeChar (Char.ofNat b.toNat) = [UInt8.ofNat (Char.ofNat b.toNat).toNat] :=
    if_pos (show (Char.ofNat b.toNat).toNat ≤ 127 by omega)
  rw [encode_cons, encode_nil, List.append_nil, hwritten, hvalue, UInt8.ofNat_toNat]

/-- Bytes of ASCII are characters. -/
theorem of_ascii (h : ∀ b ∈ t, b < 0x80) : t.Encoded := by
  induction t with
  | nil => exact nil
  | cons b t ih =>
    exact (singleton (h b (by simp))).append (ih fun b' hb' => h b' (by simp [hb']))

/-- **A text can be cut at a byte of ASCII**, in front of it and behind it. -/
theorem of_cons {b : UInt8} (h : (x ++ b :: z).Encoded) (hb : b < 0x80) : x.Encoded ∧ z.Encoded :=
  of_token (y := [b]) (by simpa using h) (singleton hb) (by simp)

end Encoded

end Regen.Text
