import Regen.Proofs.Coordinates

/-!
# Checked access to texts

Everything in this library is computed with lists that are cut, searched and indexed anywhere: a slice is clamped to
the text, and a difference of offsets stops at zero. A program that keeps its texts in memory has no such leeway. There
an index has to lie inside of the text, a slice has to have its ends in order, inside of the text and between
characters, and an offset must not be taken from a smaller one; where this fails the program comes to a halt.

So the passes over a text are written down a second time, with **checked access**: each of them is a computation that
stops with `none` where an access is out of range. This module has the single accesses and what is made of them
everywhere, which are the search for a byte or a token, the span between two offsets, and the location of an offset.
In a text written in characters all of them have an answer, and it is that of the unchecked computation
(`Checked.span_eq`, `Checked.locate_eq`).
-/

namespace Regen.Checked

open Text (newline)

/-! ## Single accesses -/

/-- The difference of two offsets, the first of which must not be the smaller one. -/
def minus (a b : Nat) : Option Nat := if b ≤ a then some (a - b) else none

/-- The bytes between two offsets, which are in order and inside the text. -/
def bytes (t : Text) (start stop : Nat) : Option Text :=
  if start ≤ stop ∧ stop ≤ t.length then some (t.extract start stop) else none

/-- The characters between two offsets, each of which moreover lies between characters. -/
def slice (t : Text) (start stop : Nat) : Option Text :=
  if t.isCharStart start && t.isCharStart stop then bytes t start stop else none

theorem minus_eq {a b : Nat} (h : b ≤ a) : minus a b = some (a - b) := if_pos h

theorem bytes_eq {t : Text} {start stop : Nat} (h : start ≤ stop) (hstop : stop ≤ t.length) :
    bytes t start stop = some (t.extract start stop) := if_pos ⟨h, hstop⟩

theorem slice_eq {t : Text} {start stop : Nat} (hstart : t.isCharStart start = true)
    (hstop : t.isCharStart stop = true) (h : start ≤ stop) :
    slice t start stop = some (t.extract start stop) := by
  rw [slice, hstart, hstop]
  exact bytes_eq h (Text.le_length_of_isCharStart hstop)

/-- A slice that cuts a character in two is out of range, and so is one whose ends are not in order. -/
example : slice (Text.ofString "aé") 0 2 = none ∧ slice (Text.ofString "aé") 1 0 = none := by decide +kernel

/-! ## Searches -/

/-- The first occurrence of a byte between two offsets, the second of which may lie behind the text. -/
def findByte (b : UInt8) (t : Text) (start stop : Nat) : Option (Option Nat) :=
  if start ≥ min stop t.length then some none
  else do
    let part ← bytes t start (min stop t.length)
    return (part.idxOf? b).map (· + start)

/-- The last occurrence of a byte between two offsets. -/
def findLastByte (b : UInt8) (t : Text) (start stop : Nat) : Option (Option Nat) :=
  if start ≥ min stop t.length then some none
  else do
    let part ← bytes t start (min stop t.length)
    return (Text.lastIdxOf? b part).map (· + start)

/-- The first occurrence of a token between two offsets. It is looked for only where there are characters between
them, so that this access is never out of range. -/
def findToken (token t : Text) (start stop : Nat) : Option Nat :=
  match slice t start stop with
  | some part => (Text.find? token part).map (· + start)
  | none => none

/-- The bytes between offsets that are not in order are none, and there are none behind the text. -/
theorem extract_min_length (t : Text) (start stop : Nat) :
    t.extract start (min stop t.length) = t.extract start stop := by
  simp only [List.extract_eq_take_drop]
  rw [List.take_eq_take_iff, List.length_drop]
  omega

theorem extract_eq_nil {t : Text} {start stop : Nat} (h : min stop t.length ≤ start) : t.extract start stop = [] := by
  rw [← extract_min_length, List.extract_eq_take_drop, Nat.sub_eq_zero_of_le h, List.take_zero]

/-- A stretch begins with the byte at its start. -/
theorem extract_eq_cons {t : Text} {start stop : Nat} {b : UInt8} (h : start < stop) (hb : t[start]? = some b) :
    t.extract start stop = b :: t.extract (start + 1) stop := by
  obtain ⟨hlt, rfl⟩ := List.getElem?_eq_some_iff.1 hb
  obtain ⟨n, rfl⟩ := Nat.exists_eq_add_of_lt h
  rw [List.extract_eq_take_drop, List.extract_eq_take_drop, List.drop_eq_getElem_cons hlt,
    show start + n + 1 - start = n + 1 by omega, show start + n + 1 - (start + 1) = n by omega, List.take_succ_cons]

theorem length_extract {t : Text} {start stop : Nat} (h : stop ≤ t.length) :
    (t.extract start stop).length = stop - start := by
  simp only [List.extract_eq_take_drop, List.length_take, List.length_drop]
  omega

theorem drop_extract (t : Text) (start stop n : Nat) : (t.extract start stop).drop n = t.extract (start + n) stop := by
  rw [List.extract_eq_take_drop, List.extract_eq_take_drop, List.drop_take, List.drop_drop, Nat.sub_sub]

theorem extract_length (t : Text) (start : Nat) : t.extract start t.length = t.drop start := by
  rw [List.extract_eq_take_drop, List.take_of_length_le (by rw [List.length_drop])]

/-- **A search for a byte is never out of range.** -/
@[simp] theorem findByte_eq (b : UInt8) (t : Text) (start stop : Nat) :
    findByte b t start stop = some (Text.byteIn? b t start stop) := by
  rw [findByte, Text.byteIn?]
  split
  next h => rw [extract_eq_nil h]; rfl
  next h =>
    rw [bytes_eq (by omega) (by omega), extract_min_length]
    rfl

@[simp] theorem findLastByte_eq (b : UInt8) (t : Text) (start stop : Nat) :
    findLastByte b t start stop = some (Text.lastByteIn? b t start stop) := by
  rw [findLastByte, Text.lastByteIn?]
  split
  next h => rw [extract_eq_nil h]; rfl
  next h =>
    rw [bytes_eq (by omega) (by omega), extract_min_length]
    rfl

/-- Where the line that holds an offset starts. -/
def lineStart (t : Text) (offset : Nat) : Option Nat := do
  match ← findLastByte newline t 0 offset with
  | some i => return i + 1
  | none => return 0

/-- Where the line that a search from an offset reaches ends. -/
def lineStop (t : Text) (offset : Nat) : Option Nat := do
  match ← findByte newline t offset t.length with
  | some i => return i + 1
  | none => return t.length

@[simp] theorem lineStart_eq (t : Text) (offset : Nat) : lineStart t offset = some (Text.lineStart t offset) := by
  rw [lineStart, findLastByte_eq, Text.lineStart]
  cases Text.lastByteIn? newline t 0 offset <;> rfl

@[simp] theorem lineStop_eq (t : Text) (offset : Nat) : lineStop t offset = some (Text.lineStop t offset) := by
  rw [lineStop, findByte_eq, Text.lineStop]
  cases Text.byteIn? newline t offset t.length <;> rfl

/-- Between two offsets that lie between characters, tokens are found as ever. -/
theorem findToken_eq {token t : Text} {start stop : Nat} (hstart : t.isCharStart start = true)
    (hstop : t.isCharStart stop = true) (h : start ≤ stop) :
    findToken token t start stop = Text.findIn? token t start stop := by
  rw [findToken, slice_eq hstart hstop h, Text.findIn?]

/-! ## Spans -/

/-- The next offset that lies between characters. -/
def nextStart (t : Text) (i : Nat) : Option Nat :=
  if t.isCharStart i then some i
  else if i < t.length then nextStart t (i + 1)
  else none
termination_by t.length - i

/-- The span between two offsets, which may lie anywhere. An offset inside a character is moved on to the next
one. -/
def span (t : Text) (start stop : Nat) : Option Text := do
  let stop := min stop t.length
  let start := min start stop
  let stop ← nextStart t stop
  let start ← nextStart t start
  if start ≥ stop then return [] else slice t start stop

/-- Moving an offset on ends between characters. -/
theorem isCharStart_of_nextStart {t : Text} {i n : Nat} (h : nextStart t i = some n) : t.isCharStart n = true := by
  fun_induction nextStart t i with
  | case1 i hi =>
    cases h
    exact hi
  | case2 i _ _ ih => exact ih h
  | case3 => cases h

/-- **An offset is moved on** over the continuation bytes behind it. -/
theorem nextStart_eq {t : Text} {i : Nat} (hi : i ≤ t.length) :
    nextStart t i = some (i + ((t.drop i).takeWhile Text.isContinuation).length) := by
  fun_induction nextStart t i with
  | case1 i h =>
    rcases Nat.lt_or_eq_of_le hi with hlt | rfl
    · have hlead : Text.isContinuation t[i] = false := by
        simpa [Text.isCharStart, List.getElem?_eq_getElem hlt] using h
      rw [List.drop_eq_getElem_cons hlt, List.takeWhile_cons_of_neg (by simp [hlead])]
      rfl
    · simp
  | case2 i h hlt ih =>
    have hcontinues : Text.isContinuation t[i] = true := by
      simpa [Text.isCharStart, List.getElem?_eq_getElem hlt] using h
    rw [ih hlt, List.drop_eq_getElem_cons hlt, List.takeWhile_cons_of_pos hcontinues, List.length_cons,
      Nat.add_assoc, Nat.add_comm 1]
  | case3 i h hge =>
    obtain rfl : i = t.length := by omega
    simp [Text.isCharStart] at h

theorem nextStart_of_isCharStart {t : Text} {i : Nat} (h : t.isCharStart i = true) : nextStart t i = some i := by
  rw [nextStart, if_pos h]

/-- Between two offsets in a row lies what is in front of the second. -/
theorem drop_eq_extract_append {t : Text} {start stop : Nat} (h : start ≤ stop) :
    t.drop start = t.extract start stop ++ t.drop stop := by
  have hdrop : t.drop stop = (t.drop start).drop (stop - start) := by
    rw [List.drop_drop, Nat.add_sub_cancel' h]
  rw [hdrop, List.extract_eq_take_drop, List.take_append_drop]

/-- Continuation bytes do not run over an offset between characters. -/
theorem takeWhile_drop_eq {t : Text} {i stop : Nat} (hi : i ≤ stop) (hstop : t.isCharStart stop = true) :
    (t.drop i).takeWhile Text.isContinuation = (t.extract i stop).takeWhile Text.isContinuation := by
  rw [drop_eq_extract_append hi, List.takeWhile_append]
  split
  next hall =>
    have hbehind : (t.drop stop).takeWhile Text.isContinuation = [] := by
      have h := nextStart_eq (Text.le_length_of_isCharStart hstop)
      rw [nextStart_of_isCharStart hstop] at h
      exact List.length_eq_zero_iff.1 (by injection h; omega)
    rw [hbehind, List.append_nil]
    exact ((List.takeWhile_prefix _).eq_of_length hall).symm
  next => rfl

/-- **An offset in front of one between characters** is moved on to the characters that start before that one. -/
theorem exists_nextStart {t : Text} {i stop : Nat} (hi : i ≤ stop) (hstop : t.isCharStart stop = true) :
    ∃ n ≤ stop, nextStart t i = some n ∧ t.extract n stop = Text.toCharStart (t.extract i stop) := by
  have hle := Text.le_length_of_isCharStart hstop
  have hmoved := nextStart_eq (hi.trans hle)
  rw [takeWhile_drop_eq hi hstop] at hmoved
  have hsplit : (t.extract i stop).takeWhile Text.isContinuation ++ Text.toCharStart (t.extract i stop)
      = t.extract i stop := List.takeWhile_append_dropWhile
  have hlength := congrArg List.length hsplit
  rw [List.length_append, length_extract hle] at hlength
  refine ⟨_, by omega, hmoved, ?_⟩
  have hdrop : t.drop i = (t.extract i stop).takeWhile Text.isContinuation
      ++ (Text.toCharStart (t.extract i stop) ++ t.drop stop) := by
    rw [drop_eq_extract_append hi, ← List.append_assoc, hsplit]
  rw [List.extract_eq_take_drop, ← List.drop_drop, hdrop, List.drop_left, List.take_left' (by omega)]

/-- **A span whose end lies between characters** holds the characters that start in it. -/
theorem span_eq {t : Text} (start : Nat) {stop : Nat} (hstop : t.isCharStart stop = true) :
    span t start stop = some (Text.toCharStart (t.extract start stop)) := by
  have hstretch : t.extract start stop = t.extract (min start stop) stop := by
    rcases Nat.le_total start stop with h | h
    · rw [Nat.min_eq_left h]
    · rw [Nat.min_eq_right h, extract_eq_nil (by omega), extract_eq_nil (by omega)]
  obtain ⟨n, hn, hmoved, hextract⟩ := exists_nextStart (Nat.min_le_right start stop) hstop
  rw [span, Nat.min_eq_left (Text.le_length_of_isCharStart hstop), nextStart_of_isCharStart hstop, hmoved,
    hstretch, ← hextract]
  simp only [Option.bind_eq_bind, Option.bind_some, ge_iff_le]
  split
  next h =>
    rw [extract_eq_nil (by omega)]
    rfl
  next => exact slice_eq (isCharStart_of_nextStart hmoved) hstop hn

/-- **A span whose ends lie between characters** is what stands between them. -/
theorem span_eq_extract {t : Text} {start stop : Nat} (hstart : t.isCharStart start = true)
    (hstop : t.isCharStart stop = true) : span t start stop = some (t.extract start stop) := by
  rw [span_eq start hstop]
  refine congrArg some ?_
  rcases Nat.lt_or_ge start stop with h | h
  · have hlt : start < t.length := h.trans_le (Text.le_length_of_isCharStart hstop)
    have hlead : Text.isContinuation t[start] = false := by
      simpa [Text.isCharStart, List.getElem?_eq_getElem hlt] using hstart
    rw [extract_eq_cons h (List.getElem?_eq_getElem hlt), Text.toCharStart,
      List.dropWhile_cons_of_neg (by simp [hlead])]
  · rw [extract_eq_nil (by omega)]
    rfl

end Regen.Checked

namespace Regen.Text

/-! ## Offsets between characters -/

/-- What stands in a stretch stands in the text. -/
theorem getElem?_of_extract {b : UInt8} {t x z : Text} {i j : Nat} (h : t.extract i j = x ++ b :: z) :
    t[x.length + i]? = some b := by
  have hbyte : (t.extract i j)[x.length]? = some b := by simp [h]
  rw [List.extract_eq_take_drop, List.getElem?_take, List.getElem?_drop] at hbyte
  split at hbyte
  · rwa [Nat.add_comm]
  · cases hbyte

/-- A byte that is found stands where it is found. -/
theorem getElem?_of_byteIn? {b : UInt8} {t : Text} {i j k : Nat} (h : byteIn? b t i j = some k) :
    t[k]? = some b := by
  obtain ⟨n, hn, rfl⟩ := Option.map_eq_some_iff.1 h
  obtain ⟨x, z, hxz, rfl, -⟩ := idxOf?_eq_some.1 hn
  exact getElem?_of_extract hxz

theorem getElem?_of_lastByteIn? {b : UInt8} {t : Text} {i j k : Nat} (h : lastByteIn? b t i j = some k) :
    t[k]? = some b := by
  obtain ⟨n, hn, rfl⟩ := Option.map_eq_some_iff.1 h
  obtain ⟨x, z, hxz, rfl, -⟩ := lastIdxOf?_eq_some.1 hn
  exact getElem?_of_extract hxz

/-- **The first place of a byte** cuts a stretch in two, the first of which is without it. -/
theorem extract_of_byteIn? {b : UInt8} {t : Text} {i j k : Nat} (h : byteIn? b t i j = some k) :
    t.extract i j = t.extract i k ++ b :: t.extract (k + 1) j ∧ b ∉ t.extract i k := by
  obtain ⟨n, hn, rfl⟩ := Option.map_eq_some_iff.1 h
  obtain ⟨x, z, hxz, rfl, hx⟩ := idxOf?_eq_some.1 hn
  have hlength := congrArg List.length hxz
  simp only [List.extract_eq_take_drop, List.length_take, List.length_append, List.length_cons] at hlength
  have hfront : t.extract i (x.length + i) = x := by
    have htake : t.extract i (x.length + i) = (t.extract i j).take x.length := by
      rw [List.extract_eq_take_drop, List.extract_eq_take_drop, List.take_take, Nat.add_sub_cancel,
        Nat.min_eq_left (by omega)]
    rw [htake, hxz, List.take_left]
  have hback : t.extract (x.length + i + 1) j = z := by
    have hdrop : t.extract (x.length + i + 1) j = (t.extract i j).drop (x.length + 1) := by
      rw [Checked.drop_extract, show i + (x.length + 1) = x.length + i + 1 by omega]
    rw [hdrop, hxz, ← List.drop_drop, List.drop_left]
    rfl
  rw [hfront, hback]
  exact ⟨hxz, hx⟩

@[simp] theorem isCharStart_length (t : Text) : t.isCharStart t.length = true := by simp [isCharStart]

/-- In front of a byte of ASCII and in front of the end a character starts. -/
theorem isCharStart_of_getElem? {b : UInt8} {t : Text} {i : Nat} (hb : b < 0x80) (hi : t[i]? = some b) :
    t.isCharStart i = true := by
  have hlead : isContinuation b = false := by
    simp only [isContinuation, Bool.and_eq_false_iff, decide_eq_false_iff_not, UInt8.not_le]
    exact .inl hb
  simp [isCharStart, hi, hlead]

/-- A character starts where a byte of ASCII is found. -/
theorem isCharStart_of_byteIn? {b : UInt8} {t : Text} {i j k : Nat} (hb : b < 0x80) (h : byteIn? b t i j = some k) :
    t.isCharStart k = true := isCharStart_of_getElem? hb (getElem?_of_byteIn? h)

theorem isCharStart_of_lastByteIn? {b : UInt8} {t : Text} {i j k : Nat} (hb : b < 0x80)
    (h : lastByteIn? b t i j = some k) : t.isCharStart k = true :=
  isCharStart_of_getElem? hb (getElem?_of_lastByteIn? h)

namespace Encoded

variable {t : Text} {i j k : Nat}

/-- A text begins with a character. -/
theorem isCharStart_zero (ht : t.Encoded) : t.isCharStart 0 = true :=
  (isCharStart_iff (x := []) ht).2 ⟨nil, ht⟩

/-- **Behind a byte of ASCII a character starts.** -/
theorem isCharStart_succ (ht : t.Encoded) {b : UInt8} (hb : b < 0x80) (hi : t[i]? = some b) :
    t.isCharStart (i + 1) = true := by
  obtain ⟨hlt, rfl⟩ := List.getElem?_eq_some_iff.1 hi
  have hsplit : t.take i ++ t[i] :: t.drop (i + 1) = t := by
    rw [← List.drop_eq_getElem_cons hlt, List.take_append_drop]
  have hparts : Encoded (t.take i ++ t[i] :: t.drop (i + 1)) := by rwa [hsplit]
  obtain ⟨hfront, hback⟩ := hparts.of_cons hb
  rw [List.append_cons] at hparts
  have hstart := hparts.isCharStart_iff.2 ⟨hfront.append (singleton hb), hback⟩
  rw [List.append_assoc, List.singleton_append, hsplit, List.length_append, List.length_take,
    List.length_singleton, Nat.min_eq_left hlt.le] at hstart
  exact hstart

/-- And behind a byte of ASCII that is found one starts as well. -/
theorem isCharStart_succ_of_byteIn? (ht : t.Encoded) {b : UInt8} (hb : b < 0x80) (h : byteIn? b t i j = some k) :
    t.isCharStart (k + 1) = true := ht.isCharStart_succ hb (getElem?_of_byteIn? h)

theorem isCharStart_succ_of_lastByteIn? (ht : t.Encoded) {b : UInt8} (hb : b < 0x80)
    (h : lastByteIn? b t i j = some k) : t.isCharStart (k + 1) = true :=
  ht.isCharStart_succ hb (getElem?_of_lastByteIn? h)

/-- Lines start between characters. -/
theorem isCharStart_lineStart (ht : t.Encoded) (i : Nat) : t.isCharStart (lineStart t i) = true := by
  rw [lineStart]
  split
  next h => exact ht.isCharStart_succ_of_lastByteIn? (by decide) h
  next => exact ht.isCharStart_zero

/-- Lines end between characters. -/
theorem isCharStart_lineStop (ht : t.Encoded) (i : Nat) : t.isCharStart (lineStop t i) = true := by
  rw [lineStop]
  split
  next h => exact ht.isCharStart_succ_of_byteIn? (by decide) h
  next => exact t.isCharStart_length

/-- What stands between two offsets that lie between characters is written in characters. -/
theorem extract (ht : t.Encoded) (hi : t.isCharStart i = true) (hj : t.isCharStart j = true) :
    Encoded (t.extract i j) := by
  rcases Nat.le_total i j with h | h
  · have hle := le_length_of_isCharStart hj
    have hfront : Encoded (t.take i ++ t.drop i) := by rwa [List.take_append_drop]
    have hfrontLength : (t.take i).length = i := by simp [h.trans hle]
    rw [← hfrontLength, ← List.take_append_drop i t] at hi
    obtain ⟨-, hback⟩ := hfront.isCharStart_iff.1 (by simpa [hfrontLength] using hi)
    rw [Checked.drop_eq_extract_append h] at hback
    have hlength : i + (t.extract i j).length = j := by rw [Checked.length_extract hle, Nat.add_sub_cancel' h]
    refine (hback.isCharStart_iff.1 ?_).1
    rw [← Checked.drop_eq_extract_append h, ← isCharStart_append_add (t.take i), List.take_append_drop,
      hfrontLength, hlength]
    exact hj
  · rw [Checked.extract_eq_nil (by omega)]
    exact nil

end Encoded

end Regen.Text

namespace Regen.Checked

open Text (newline)

/-! ## Locations -/

/-- The index of the line that holds an offset, looked up in the sorted list of the line starts. That is where the
offset stands in it, or else in front of where it would have to stand. -/
def lineIndex (starts : List Nat) (offset : Nat) : Nat :=
  match starts.idxOf? offset with
  | some i => i
  | none => starts.countP (· < offset) - 1

/-- How many characters stand between the start of a line and an offset, or else how many bytes. -/
def columnFrom (t : Text) (start offset : Nat) : Option Nat := do
  let width ← minus offset start
  match slice t start offset with
  | some front => return Text.charCount front
  | none => return width

/-- The line that starts at an offset, with a sign for how it ends. -/
def excerptFrom (t : Text) (start : Nat) : Option Text := do
  let rest ← slice t start t.length
  match rest.idxOf? newline with
  | some stop => return (← slice t start (start + stop)) ++ Text.ofString "\\n"
  | none => return rest ++ Text.ofString "\\0"

/-- The location of an offset in a text. -/
def locate (t : Text) (offset width : Nat) : Option Location := do
  let table := LineTable.ofText t
  let offset := table.resolve offset
  let index := lineIndex table.starts.toList offset
  let start ← table.starts[index]?
  let column ← columnFrom t start offset
  let excerpt ← excerptFrom t start
  return { line := index + 1, column := column + 1, excerpt, width }

/-- The starts of lines are in order. -/
theorem pairwise_startsAfter (offset : Nat) (t : Text) : (LineTable.startsAfter offset t).Pairwise (· < ·) := by
  induction t generalizing offset with
  | nil => exact .nil
  | cons b t ih =>
    rw [LineTable.startsAfter]
    split
    · exact List.pairwise_cons.2 ⟨fun i hi => (LineTable.startsAfter_bounds hi).1, ih (offset + 1)⟩
    · exact ih (offset + 1)

/-- In a sorted list an offset is looked up as the last entry that is not behind it. -/
theorem lineIndex_of_sorted {front back : List Nat} {offset n : Nat} (hsorted : (front ++ back).Pairwise (· < ·))
    (hlength : front.length = n + 1) (hbefore : ∀ i ∈ front, i ≤ offset) (hbehind : ∀ i ∈ back, offset < i) :
    lineIndex (front ++ back) offset = n := by
  rw [lineIndex]
  split
  next i hi =>
    rw [List.idxOf?, List.findIdx?_eq_some_iff_getElem] at hi
    obtain ⟨hlt, hoffset, -⟩ := hi
    rw [beq_iff_eq] at hoffset
    rcases Nat.lt_trichotomy i n with hless | heq | hgreater
    · -- the last entry in front would be behind the offset
      have hlast : n < (front ++ back).length := by simp; omega
      have hrise := List.pairwise_iff_getElem.1 hsorted i _ hlt hlast hless
      rw [List.getElem_append_left (by omega : n < front.length)] at hrise
      have := hbefore _ (List.getElem_mem (by omega : n < front.length))
      omega
    · exact heq
    · rw [List.getElem_append_right (by omega)] at hoffset
      have := hbehind _ (hoffset ▸ List.getElem_mem _)
      omega
  next hnone =>
    have hnotMem : offset ∉ front ++ back := List.idxOf?_eq_none_iff.1 hnone
    have hfront : front.countP (· < offset) = front.length := by
      rw [List.countP_eq_length]
      intro i hi
      have := hbefore i hi
      have : i ≠ offset := fun h => hnotMem (by simp [← h, hi])
      simp
      omega
    have hback : back.countP (· < offset) = 0 := by
      rw [List.countP_eq_zero]
      intro i hi
      have := hbehind i hi
      simp
      omega
    rw [List.countP_append, hfront, hback]
    omega

/-- **The line of an offset is looked up rightly.** -/
theorem lineIndex_eq (x y : Text) :
    lineIndex (LineTable.ofText (x ++ y)).starts.toList x.length = x.count newline := by
  have hsorted : (0 :: LineTable.startsAfter 0 (x ++ y)).Pairwise (· < ·) :=
    List.pairwise_cons.2 ⟨fun i hi => (LineTable.startsAfter_bounds hi).1, pairwise_startsAfter 0 (x ++ y)⟩
  rw [LineTable.startsAfter_append, Nat.zero_add, ← List.cons_append] at hsorted
  rw [LineTable.starts_append]
  refine lineIndex_of_sorted hsorted ?_ ?_ fun i hi => (LineTable.startsAfter_bounds hi).1
  · rw [List.length_cons, LineTable.length_startsAfter]
  · rintro i (_ | ⟨_, hi⟩)
    · exact Nat.zero_le _
    · have := LineTable.startsAfter_bounds hi
      omega

theorem columnFrom_eq {t : Text} {start offset : Nat} (hstart : t.isCharStart start = true) (h : start ≤ offset) :
    columnFrom t start offset = some (if t.isCharStart offset then Text.charCount (t.extract start offset)
      else offset - start) := by
  rw [columnFrom, minus_eq h, Option.bind_eq_bind, Option.bind_some]
  by_cases hoffset : t.isCharStart offset = true
  · rw [slice_eq hstart hoffset h, if_pos hoffset]
    rfl
  · rw [slice, hstart, Bool.true_and, if_neg hoffset, if_neg hoffset]
    rfl

/-- The line that starts at an offset is shown as ever. -/
theorem excerptFrom_eq {t : Text} {start : Nat} (hstart : t.isCharStart start = true) :
    excerptFrom t start = some (match Text.byteIn? newline t start t.length with
      | some stop => t.extract start stop ++ Text.ofString "\\n"
      | none => t.drop start ++ Text.ofString "\\0") := by
  rw [excerptFrom, slice_eq hstart t.isCharStart_length (Text.le_length_of_isCharStart hstart),
    Option.bind_eq_bind, Option.bind_some]
  cases hstop : (t.extract start t.length).idxOf? newline with
  | none =>
    rw [Text.byteIn?, hstop, List.extract_eq_take_drop, List.take_of_length_le (by rw [List.length_drop])]
    rfl
  | some stop =>
    have hbyte : Text.byteIn? newline t start t.length = some (start + stop) := by
      rw [Text.byteIn?, hstop, Option.map_some, Nat.add_comm]
    have hcut := Text.isCharStart_of_byteIn? (by decide) hbyte
    rw [hbyte]
    simp only [slice_eq hstart hcut (Nat.le_add_right ..)]
    rfl

/-- **Every offset has a location** in a text written in characters, whether it lies inside of it or not, and
between characters or not. -/
theorem locate_eq {t : Text} (ht : t.Encoded) (offset width : Nat) :
    locate t offset width = some (Location.ofOffset t offset width) := by
  have hle := LineTable.resolve_le t offset
  rw [locate, Location.ofOffset]
  generalize (LineTable.ofText t).resolve offset = r at hle ⊢
  obtain ⟨x, y, rfl, rfl⟩ : ∃ x y, t = x ++ y ∧ r = x.length :=
    ⟨t.take r, t.drop r, (List.take_append_drop r t).symm, by simp [hle]⟩
  have hstart : (LineTable.ofText (x ++ y)).startOf x.length = Text.lineStart (x ++ y) x.length := by
    rw [LineTable.startOf_append, Text.lineStart_append]
  have hstartLe : Text.lineStart (x ++ y) x.length ≤ x.length := by
    rw [Text.lineStart_append]
    exact Nat.sub_le ..
  have hcut := ht.isCharStart_lineStart x.length
  have hlookup := LineTable.starts_getElem?_append x y
  rw [← LineTable.startOf_append, hstart] at hlookup
  have hpoint : (LineTable.ofText (x ++ y)).point x.length = (x.count newline + 1,
      (if (x ++ y).isCharStart x.length
        then Text.charCount ((x ++ y).extract (Text.lineStart (x ++ y) x.length) x.length)
        else x.length - Text.lineStart (x ++ y) x.length) + 1) := by
    rw [LineTable.point, hstart, LineTable.lineIndex_append]
    rfl
  have hexcerpt : (LineTable.ofText (x ++ y)).excerptAt x.length
      = match Text.byteIn? newline (x ++ y) (Text.lineStart (x ++ y) x.length) (x ++ y).length with
        | some stop => (x ++ y).extract (Text.lineStart (x ++ y) x.length) stop ++ Text.ofString "\\n"
        | none => (x ++ y).drop (Text.lineStart (x ++ y) x.length) ++ Text.ofString "\\0" := by
    rw [LineTable.excerptAt, LineTable.lineAt, hstart, show (LineTable.ofText (x ++ y)).text = x ++ y from rfl]
    cases Text.byteIn? newline (x ++ y) (Text.lineStart (x ++ y) x.length) (x ++ y).length <;> rfl
  rw [lineIndex_eq, hlookup, hpoint, hexcerpt]
  simp only [Option.bind_eq_bind, Option.bind_some, columnFrom_eq hcut hstartLe, excerptFrom_eq hcut]
  rfl

end Regen.Checked
