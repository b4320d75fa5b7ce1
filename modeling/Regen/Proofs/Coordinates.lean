import Mathlib.Data.List.Infix
import Mathlib.Data.Prod.Lex
import Regen.Location
import Regen.Proofs.Characters
import Regen.Proofs.Lines

/-!
# Lines and columns of offsets

The table of a text lists where its lines start, and the line of an offset is looked up there by halving. What
is looked up can be said of the two parts into which the offset cuts the text. As many lines start up to the
offset as there are line feeds in front of it, and one more (`LineTable.lineIndex_append`), and
the last of them starts behind the last of these line feeds. So **the line and the column of an
offset are counted in the characters in front of it** (`LineTable.point_encode`), and the line that is shown is made
up of the end of the one part and the beginning of the other (`LineTable.lineAt_encode`).

Of two offsets the later one has the greater point, since what stands in front of it goes on from what stands in
front of the other one (`LineTable.point_lt`). All of it is put together in `LineTable.pointsOut`.
-/

namespace Regen

open Text (newline encode)

/-! ## The last line of characters -/

namespace Text

/-- The line feed is a character of its own. -/
theorem encode_newline : encode ['\n'] = [newline] := by decide

/-- **Line feeds are counted alike** in bytes and in characters. -/
theorem count_encode (cs : List Char) : (encode cs).count newline = cs.count '\n' := by
  induction cs with
  | nil => rfl
  | cons c cs ih =>
    rw [encode_cons, List.count_append, ih, List.count_cons, Nat.add_comm]
    congr 1
    by_cases hc : c = '\n'
    · subst hc
      decide
    · rw [if_neg (by simpa using hc), List.count_eq_zero]
      intro hmem
      obtain ⟨b, rest, hwritten, -, hcontinue, hascii⟩ := utf8EncodeChar_eq_cons c
      rw [hwritten, List.mem_cons] at hmem
      rcases hmem with rfl | hmem
      · -- a character whose first byte is the line feed is the line feed
        rw [hascii (by decide)] at hwritten
        have heq : encode [c] = encode ['\n'] := by rw [encode_newline, encode_cons, hwritten]; rfl
        exact hc (List.singleton_inj.1 (encode_injective heq))
      · exact absurd (hcontinue _ hmem) (by decide)

theorem newline_mem_encode_iff {cs : List Char} : newline ∈ encode cs ↔ '\n' ∈ cs := by
  rw [← List.count_pos_iff, count_encode, List.count_pos_iff]

theorem takeWhile_of_notMem {t : Text} (h : newline ∉ t) : t.takeWhile (· != newline) = t :=
  List.takeWhile_eq_self_iff.2 fun b hb => by simpa using fun hbn : b = newline => h (hbn ▸ hb)

/-- What stands in front of the first line feed. -/
theorem takeWhile_append_newline {u : Text} (h : newline ∉ u) (v : Text) :
    (u ++ newline :: v).takeWhile (· != newline) = u := by
  rw [List.takeWhile_append_of_pos fun b hb => by simpa using fun hbn : b = newline => h (hbn ▸ hb),
    List.takeWhile_cons_of_neg (by simp), List.append_nil]

/-- The characters behind the last line feed. -/
def lastLineChars (cs : List Char) : List Char := cs.rtakeWhile (· != '\n')

/-- The characters up to the first line feed. -/
def firstLineChars (cs : List Char) : List Char := cs.takeWhile (· != '\n')

/-- **Characters end in their last line**, which has no line feed, and in front of it there is one or nothing. -/
theorem exists_lastLineChars (cs : List Char) : ∃ front, cs = front ++ lastLineChars cs ∧
    '\n' ∉ lastLineChars cs ∧ (front = [] ∨ front.getLast? = some '\n') := by
  induction cs using List.reverseRecOn with
  | nil => exact ⟨[], rfl, List.not_mem_nil, .inl rfl⟩
  | append_singleton cs c ih =>
    by_cases hc : c = '\n'
    · refine ⟨cs ++ [c], ?_⟩
      rw [lastLineChars, List.rtakeWhile_concat_neg _ _ _ (by simp [hc])]
      simp [hc]
    · obtain ⟨front, hcs, hno, hfront⟩ := ih
      refine ⟨front, ?_⟩
      rw [lastLineChars, List.rtakeWhile_concat_pos _ _ _ (by simpa using hc), ← lastLineChars,
        ← List.append_assoc, ← hcs]
      exact ⟨rfl, by simp [hno, Ne.symm hc], hfront⟩

/-- The last line of characters is written as the last line of what they are written as. -/
theorem lastLine_encode (cs : List Char) : lastLine (encode cs) = encode (lastLineChars cs) := by
  obtain ⟨front, hcs, hno, hfront⟩ := exists_lastLineChars cs
  have hno' : newline ∉ encode (lastLineChars cs) := mt newline_mem_encode_iff.1 hno
  conv_lhs => rw [hcs, encode_append]
  rcases hfront with rfl | hfront
  · simpa [lastLine] using lastLine_append_of_notMem [] hno'
  · obtain ⟨more, rfl⟩ := List.getLast?_eq_some_iff.1 hfront
    rw [encode_append, encode_newline, List.append_assoc, List.singleton_append,
      lastLine_append_newline _ hno']

/-- The first line of characters ends at a line feed, or with them. -/
theorem firstLineChars_cases (cs : List Char) : '\n' ∉ firstLineChars cs ∧
    (cs = firstLineChars cs ∧ '\n' ∉ cs ∨ ∃ rest, cs = firstLineChars cs ++ '\n' :: rest) := by
  have hno : '\n' ∉ firstLineChars cs := fun h => by simpa using List.mem_takeWhile_imp h
  refine ⟨hno, ?_⟩
  have hcs : firstLineChars cs ++ cs.dropWhile (· != '\n') = cs := List.takeWhile_append_dropWhile
  cases hrest : cs.dropWhile (· != '\n') with
  | nil =>
    rw [hrest, List.append_nil] at hcs
    exact .inl ⟨hcs.symm, hcs ▸ hno⟩
  | cons c rest =>
    have hc : (c != '\n') = false := by
      have := List.head_dropWhile_not (p := (· != '\n')) (l := cs) (by simp [hrest])
      simpa [hrest] using this
    obtain rfl : c = '\n' := by simpa using hc
    exact .inr ⟨rest, by rw [← hrest, hcs]⟩

end Text

/-! ## Lines around an offset -/

namespace Text

theorem lastLine_of_notMem {t : Text} (h : newline ∉ t) : lastLine t = t := by
  simpa [lastLine] using lastLine_append_of_notMem [] h

/-- The last line of a text is that of its further lines. -/
theorem lastLine_append_newline_append (x y : Text) : lastLine (x ++ newline :: y) = lastLine y := by
  by_cases hy : newline ∈ y
  · rw [show x ++ newline :: y = x ++ [newline] ++ y by simp, lastLine_append_of_mem _ hy]
  · rw [lastLine_append_newline x hy, lastLine_of_notMem hy]

/-- **The line around an offset** is the one behind as many others as there are line feeds in front. -/
theorem getElem?_lines_append (x y : Text) :
    (lines (x ++ y))[x.count newline]? = some (lastLine x ++ y.takeWhile (· != newline)) := by
  induction x using line_induction with
  | last x hx =>
    rw [List.count_eq_zero.2 hx, lastLine_of_notMem hx]
    rcases notMem_or_eq_newline y with hy | ⟨u, v, rfl, hu⟩
    · rw [lines_of_notMem (by simp [hx, hy]), takeWhile_of_notMem hy]
      rfl
    · rw [takeWhile_append_newline hu, ← List.append_assoc, lines_append_newline (by simp [hx, hu])]
      rfl
  | more line rest hline ih =>
    rw [lastLine_append_newline_append, ← ih, List.append_assoc, List.cons_append,
      lines_append_newline hline, List.count_append, List.count_cons_self, List.count_eq_zero.2 hline,
      Nat.zero_add, List.getElem?_cons_succ]

/-- Characters without a line feed go on with the last line. -/
theorem lastLineChars_append_of_notMem (cs : List Char) {ds : List Char} (h : '\n' ∉ ds) :
    lastLineChars (cs ++ ds) = lastLineChars cs ++ ds := by
  refine encode_injective ?_
  rw [← lastLine_encode, encode_append, lastLine_append_of_notMem _ (mt newline_mem_encode_iff.1 h),
    lastLine_encode, encode_append]

end Text

/-! ## Looking up a line -/

namespace LineTable

/-- The starts of the lines of two texts, one behind the other. -/
theorem startsAfter_append (offset : Nat) (x y : Text) :
    startsAfter offset (x ++ y) = startsAfter offset x ++ startsAfter (offset + x.length) y := by
  induction x generalizing offset with
  | nil => simp [startsAfter]
  | cons b x ih =>
    rw [List.cons_append, startsAfter, startsAfter, ih, List.length_cons,
      show offset + 1 + x.length = offset + (x.length + 1) by omega]
    split <;> rfl

/-- Every line feed starts a line. -/
theorem length_startsAfter (offset : Nat) (t : Text) :
    (startsAfter offset t).length = t.count newline := by
  induction t generalizing offset with
  | nil => rfl
  | cons b t ih =>
    rw [startsAfter, List.count_cons]
    split
    next hb => simp [hb, ih]
    next hb => simp [hb, ih]

/-- Lines start behind a line feed of the text. -/
theorem startsAfter_bounds {offset i : Nat} {t : Text} (h : i ∈ startsAfter offset t) :
    offset < i ∧ i ≤ offset + t.length := by
  induction t generalizing offset with
  | nil => cases h
  | cons b t ih =>
    rw [startsAfter] at h
    rw [List.length_cons]
    split at h
    · rcases List.mem_cons.1 h with rfl | h
      · omega
      · have := ih h
        omega
    · have := ih h
      omega

/-- The last of the lines starts behind the last line feed. -/
theorem getLast_startsAfter (offset : Nat) (t : Text) :
    (offset :: startsAfter offset t).getLast (List.cons_ne_nil _ _)
      = offset + t.length - (Text.lastLine t).length := by
  induction t using List.reverseRecOn with
  | nil => simp [startsAfter, Text.lastLine]
  | append_singleton t b ih =>
    by_cases hb : b = newline
    · subst hb
      have hlast := Text.lastLine_append_newline t (u := []) List.not_mem_nil
      simp [startsAfter_append, startsAfter, hlast, Nat.add_assoc]
    · have hlast := Text.lastLine_append_of_notMem t (u := [b]) (by simpa using Ne.symm hb)
      have hle := (Text.lastLine_suffix t).length_le
      simp only [startsAfter_append, startsAfter, hb, hlast, if_false, List.append_nil, ih,
        List.length_append, List.length_singleton]
      omega

/-- **Halving finds the last start that is not after the offset**, if all those up to it are not and all
those behind it are. -/
theorem searchFrom_eq {starts : Array Nat} {offset n : Nat} (hbefore : ∀ i ≤ n, starts.getD i 0 ≤ offset)
    (hafter : ∀ i, n < i → i < starts.size → offset < starts.getD i 0) (steps : Nat) {low high : Nat}
    (hlow : low ≤ n) (hhigh : n < high) (hsize : high ≤ starts.size) (hsteps : high ≤ low + steps + 1) :
    searchFrom starts offset steps low high = n := by
  induction steps generalizing low high with
  | zero =>
    rw [searchFrom]
    omega
  | succ steps ih =>
    rw [searchFrom]
    split
    next hlt =>
      dsimp only
      split
      next hle =>
        refine ih (Nat.le_of_not_lt fun hn => ?_) hhigh hsize (by omega)
        exact absurd hle (Nat.not_le_of_lt (hafter _ hn (by omega)))
      next hgt =>
        refine ih hlow (Nat.lt_of_not_le fun hn => ?_) (by omega) (by omega)
        exact hgt (hbefore _ hn)
    next => omega

variable (x y : Text)

/-- The starts of the lines of a text, those up to an offset and those after it. -/
theorem starts_append : (ofText (x ++ y)).starts
    = ((0 :: startsAfter 0 x) ++ startsAfter x.length y).toArray := by
  simp [ofText, startsAfter_append]

/-- **The line of an offset** is found behind as many others as there are line feeds in front. -/
theorem lineIndex_append : (ofText (x ++ y)).lineIndex x.length = x.count newline := by
  have hlength : (0 :: startsAfter 0 x).length = x.count newline + 1 := by
    rw [List.length_cons, length_startsAfter]
  have hsize : (ofText (x ++ y)).starts.size = x.count newline + 1 + y.count newline := by
    rw [starts_append, List.size_toArray, List.length_append, hlength, length_startsAfter]
  refine searchFrom_eq (fun i hi => ?_) (fun i hi hi' => ?_) _ (Nat.zero_le _) (by omega) le_rfl (by omega)
  · rw [starts_append, Array.getD_eq_getD_getElem?, List.getElem?_toArray,
      List.getElem?_append_left (by omega), List.getElem?_eq_getElem (by omega), Option.getD_some]
    have hmem := List.getElem_mem (l := 0 :: startsAfter 0 x) (n := i) (by omega)
    rcases List.mem_cons.1 hmem with h | h
    · omega
    · have := startsAfter_bounds h
      omega
  · rw [hsize] at hi'
    have hlt : i - (0 :: startsAfter 0 x).length < (startsAfter x.length y).length := by
      rw [length_startsAfter]
      omega
    rw [starts_append, Array.getD_eq_getD_getElem?, List.getElem?_toArray,
      List.getElem?_append_right (by omega), List.getElem?_eq_getElem hlt, Option.getD_some]
    exact (startsAfter_bounds (List.getElem_mem hlt)).1

/-- Behind the starts of the lines that end in front of an offset comes that of its own line. -/
theorem starts_getElem?_append : (ofText (x ++ y)).starts[x.count newline]?
    = some (x.length - (Text.lastLine x).length) := by
  have hlength : (0 :: startsAfter 0 x).length = x.count newline + 1 := by
    rw [List.length_cons, length_startsAfter]
  have hlast := getLast_startsAfter 0 x
  rw [List.getLast_eq_getElem, Nat.zero_add] at hlast
  rw [starts_append, List.getElem?_toArray, List.getElem?_append_left (by omega), ← hlast]
  simp only [hlength, Nat.add_sub_cancel]
  exact List.getElem?_eq_getElem (by omega)

/-- The line of an offset starts where the last line in front of the offset does. -/
theorem startOf_append : (ofText (x ++ y)).startOf x.length = x.length - (Text.lastLine x).length := by
  rw [startOf, lineIndex_append, Array.getD_eq_getD_getElem?, starts_getElem?_append, Option.getD_some]

/-- **The line of an offset** lies around it, and is ended if a line feed follows. -/
theorem lineAt_append : (ofText (x ++ y)).lineAt x.length
    = (Text.lastLine x ++ y.takeWhile (· != newline), decide (newline ∈ y)) := by
  obtain ⟨before, hx⟩ := Text.lastLine_suffix x
  have hlength := congrArg List.length hx
  rw [List.length_append] at hlength
  have hno := Text.newline_notMem_lastLine x
  rw [lineAt, startOf_append, show x.length - (Text.lastLine x).length = before.length by omega]
  have htext : (ofText (x ++ y)).text = before ++ (Text.lastLine x ++ y) := by
    rw [← List.append_assoc, hx]
    rfl
  rw [htext]
  rcases Text.notMem_or_eq_newline y with hy | ⟨u, v, rfl, hu⟩
  · have hline : newline ∉ Text.lastLine x ++ y := by simp [hno, hy]
    have hfind := Text.byteIn?_append newline before (Text.lastLine x ++ y) []
    rw [List.append_nil, ← List.length_append, List.idxOf?_eq_none_iff.2 hline] at hfind
    rw [hfind, Text.takeWhile_of_notMem hy]
    simp [hy]
  · have hline : newline ∉ Text.lastLine x ++ u := by simp [hno, hu]
    have hfind := Text.byteIn?_append newline before (Text.lastLine x ++ (u ++ newline :: v)) []
    rw [List.append_nil, ← List.length_append,
      Text.idxOf?_eq_some.2 ⟨Text.lastLine x ++ u, v, by simp, rfl, hline⟩] at hfind
    have hstop : before.length + (Text.lastLine x ++ u).length
        = (Text.lastLine x ++ u).length + before.length := Nat.add_comm _ _
    have hcut := Text.extract_append before (Text.lastLine x ++ u) (newline :: v)
    rw [hstop, List.append_assoc, List.append_assoc] at hcut
    rw [hfind, Text.takeWhile_append_newline hu]
    simp only [Option.map_some, hcut]
    simp

/-- An offset inside of the text is what it is. -/
theorem resolve_of_le {t : Text} {offset : Nat} (h : offset ≤ t.length) :
    (ofText t).resolve offset = offset := by
  rw [resolve]
  by_cases ht : t = []
  · subst ht
    exact (Nat.le_zero.1 h).symm
  · rw [if_neg (by simpa [ofText] using ht), if_neg (by omega)]
    exact min_eq_left h

/-- No offset lies behind the text. -/
theorem resolve_le (t : Text) (offset : Int) : (ofText t).resolve offset ≤ t.length := by
  rw [resolve]
  split
  · exact Nat.zero_le _
  next h =>
    have hlength : t.length ≠ 0 := by simpa [ofText] using h
    split
    · have hlt := Int.emod_lt_of_pos offset (show (0 : Int) < t.length by omega)
      have hnonneg := Int.emod_nonneg offset (show (t.length : Int) ≠ 0 by omega)
      show (offset % (t.length : Int)).toNat ≤ t.length
      omega
    · exact Nat.min_le_right ..

/-- **A negative offset counts from the end.** -/
theorem resolve_neg {t : Text} {k : Nat} (hpos : 1 ≤ k) (h : k ≤ t.length) :
    (ofText t).resolve (-(k : Int)) = t.length - k := by
  have ht : t ≠ [] := fun ht => by simp [ht] at h; omega
  rw [resolve, if_neg (by simpa [ofText] using ht), if_pos (by omega)]
  show ((-(k : Int)) % (t.length : Int)).toNat = t.length - k
  rw [← Int.add_emod_right, Int.emod_eq_of_lt (by omega) (by omega)]
  omega

/-! ## Points of offsets between characters -/

variable (front back : List Char)

/-- **Line and column** are counted in the characters in front of the offset. -/
theorem point_encode : (ofText (encode (front ++ back))).point (encode front).length
    = (front.count '\n' + 1, (Text.lastLineChars front).length + 1) := by
  have hstart : Text.isCharStart (encode (front ++ back)) (encode front).length = true :=
    Text.isCharStart_encode_iff.2 ⟨front, back, rfl, rfl⟩
  have hline : (encode front ++ encode back).extract
      ((encode front).length - (Text.lastLine (encode front)).length) (encode front).length
        = encode (Text.lastLineChars front) := by
    rw [← Text.lineStart_append, Text.extract_lineStart_append, Text.lastLine_encode]
  rw [point, show (ofText (encode (front ++ back))).text = encode (front ++ back) from rfl, hstart]
  simp only [if_true]
  rw [Text.encode_append, lineIndex_append, startOf_append, hline, Text.count_encode,
    Text.charCount_encode]

/-- **The line of an offset** is the end of what stands in front of it and the beginning of what stands
behind it. It is ended if a line feed follows. -/
theorem lineAt_encode : (ofText (encode (front ++ back))).lineAt (encode front).length
    = (encode (Text.lastLineChars front ++ Text.firstLineChars back), decide ('\n' ∈ back)) := by
  obtain ⟨hfirst, hback⟩ := Text.firstLineChars_cases back
  rw [Text.encode_append, lineAt_append, Text.encode_append, ← Text.lastLine_encode]
  rcases hback with ⟨hback, hnone⟩ | ⟨rest, hrest⟩
  · rw [← hback, Text.takeWhile_of_notMem (mt Text.newline_mem_encode_iff.1 hnone)]
    simp [Text.newline_mem_encode_iff]
  · have hwritten : encode back = encode (Text.firstLineChars back) ++ newline :: encode rest := by
      conv_lhs => rw [hrest, Text.encode_append, Text.encode_cons]
      rfl
    have hmem : '\n' ∈ back := hrest ▸ by simp
    rw [hwritten, Text.takeWhile_append_newline (mt Text.newline_mem_encode_iff.1 hfirst)]
    simp [hmem]

/-- What is shown of the line of an offset: the line, and a sign for how it ends. -/
def excerptChars : List Char :=
  Text.lastLineChars front ++ Text.firstLineChars back ++ ['\\', if '\n' ∈ back then 'n' else '0']

theorem excerptAt_encode : (ofText (encode (front ++ back))).excerptAt (encode front).length
    = encode (excerptChars front back) := by
  rw [excerptAt, lineAt_encode, excerptChars, Text.encode_append (_ ++ _)]
  by_cases h : '\n' ∈ back
  · simp only [h, decide_true, if_true]
    exact congrArg _ (Text.ofString_eq_encode _)
  · simp only [h, decide_false, if_false]
    exact congrArg _ (Text.ofString_eq_encode _)

/-- **The character at an offset** stands in the excerpt where the column says, unless it ends the line. -/
theorem excerptChars_getElem? {c : Char} (hc : c ∈ back.head?) (hline : c ≠ '\n') :
    (excerptChars front back)[(Text.lastLineChars front).length]? = some c := by
  obtain ⟨rest, rfl⟩ := List.head?_eq_some_iff.1 hc
  rw [excerptChars, Text.firstLineChars, List.takeWhile_cons_of_pos (by simpa using hline)]
  simp

/-- **A later offset has a greater point.** -/
theorem point_lt {mid : List Char} (hmid : mid ≠ []) :
    Prod.Lex (· < ·) (· < ·) ((ofText (encode (front ++ (mid ++ back)))).point (encode front).length)
      ((ofText (encode (front ++ mid ++ back))).point (encode (front ++ mid)).length) := by
  rw [point_encode, point_encode, List.count_append]
  by_cases h : '\n' ∈ mid
  · have := List.count_pos_iff.2 h
    exact .left _ _ (by omega)
  · rw [List.count_eq_zero.2 h, Text.lastLineChars_append_of_notMem front h, List.length_append]
    have := List.length_pos_of_ne_nil hmid
    exact .right _ (by omega)

/-- **Offsets are pointed out rightly.** An offset between two characters cuts the text into the characters in
front of it and those behind it. Its line is counted by the line feeds in front of it and its column by the characters
behind the last of them, and the line that is shown is the one with that number. The character at the
offset is found in the excerpt under its column. Later offsets have greater points, and a negative offset counts
from the end. -/
theorem pointsOut (s : String) :
    (∀ offset, Text.isCharStart s offset = true → ∃ front back : List Char,
      s.toList = front ++ back ∧ offset = (encode front).length ∧
      (ofText s).point ((ofText s).resolve offset)
        = (front.count '\n' + 1, (Text.lastLineChars front).length + 1) ∧
      (ofText s).lineAt ((ofText s).resolve offset)
        = (encode (Text.lastLineChars front ++ Text.firstLineChars back), decide ('\n' ∈ back)) ∧
      (Text.lines s)[front.count '\n']?
        = some (encode (Text.lastLineChars front ++ Text.firstLineChars back)) ∧
      ∀ width, ∃ excerpt : List Char,
        Location.ofOffset s offset width = ⟨front.count '\n' + 1, (Text.lastLineChars front).length + 1,
          encode excerpt, width⟩ ∧
        ∀ c ∈ back.head?, c ≠ '\n' → excerpt[(Text.lastLineChars front).length]? = some c) ∧
    (∀ offset offset', Text.isCharStart s offset = true → Text.isCharStart s offset' = true →
      offset < offset' → Prod.Lex (· < ·) (· < ·) ((ofText s).point ((ofText s).resolve offset))
        ((ofText s).point ((ofText s).resolve offset'))) ∧
    ∀ k : Nat, 1 ≤ k → k ≤ (s : Text).length → (ofText s).resolve (-(k : Int)) = (s : Text).length - k := by
  have hresolve : ∀ offset, Text.isCharStart s offset = true → (ofText s).resolve offset = offset :=
    fun offset h => resolve_of_le (Text.le_length_of_isCharStart h)
  rw [Text.ofString_eq_encode] at hresolve ⊢
  refine ⟨fun offset hoffset => ?_, fun offset offset' hoffset hoffset' hlt => ?_,
    fun k hpos hle => resolve_neg hpos hle⟩
  · rw [hresolve offset hoffset]
    obtain ⟨front, back, hs, rfl⟩ := Text.isCharStart_encode_iff.1 hoffset
    rw [hs] at hresolve hoffset ⊢
    have hline := lineAt_encode front back
    refine ⟨front, back, rfl, rfl, point_encode front back, hline, ?_, fun width => ?_⟩
    · have hlines := Text.getElem?_lines_append (encode front) (encode back)
      rw [← Text.count_encode, Text.encode_append, hlines]
      rw [Text.encode_append, lineAt_append] at hline
      exact congrArg some (Prod.ext_iff.1 hline).1
    · refine ⟨excerptChars front back, ?_, fun c hc hne => excerptChars_getElem? front back hc hne⟩
      rw [Location.ofOffset, hresolve _ hoffset, point_encode, excerptAt_encode]
  · rw [hresolve offset hoffset, hresolve offset' hoffset']
    obtain ⟨front, back, hs, rfl⟩ := Text.isCharStart_encode_iff.1 hoffset
    obtain ⟨front', back', hs', rfl⟩ := Text.isCharStart_encode_iff.1 hoffset'
    -- the characters in front of the earlier offset begin those in front of the later one
    obtain ⟨mid, rfl⟩ : front <+: front' := by
      rcases List.prefix_or_prefix_of_prefix (⟨back, hs.symm⟩ : front <+: s.toList)
        (⟨back', hs'.symm⟩ : front' <+: s.toList) with h | ⟨mid, rfl⟩
      · exact h
      · rw [Text.encode_append, List.length_append] at hlt
        omega
    obtain rfl : back = mid ++ back' := by
      rw [hs', List.append_assoc] at hs
      exact (List.append_cancel_left hs).symm
    have hmid : mid ≠ [] := fun h => by simp [h] at hlt
    have hlex := point_lt front back' hmid
    rwa [← hs, ← hs'] at hlex

/-- In `"é\na→b"` the arrow is at byte 4, behind one line feed and one character of its line. The last character is at
byte 7. -/
theorem pointsOut_sample :
    Text.isCharStart "é\na→b" 4 = true ∧ Text.isCharStart "é\na→b" 7 = true ∧
      (∃ front back : List Char, "é\na→b".toList = front ++ back ∧ 4 = (encode front).length ∧
        (ofText "é\na→b").point ((ofText "é\na→b").resolve (4 : Nat))
          = (front.count '\n' + 1, (Text.lastLineChars front).length + 1)) ∧
      (ofText "é\na→b").point ((ofText "é\na→b").resolve (4 : Nat)) = (2, 2) ∧
      Prod.Lex (· < ·) (· < ·) ((ofText "é\na→b").point ((ofText "é\na→b").resolve (4 : Nat)))
        ((ofText "é\na→b").point ((ofText "é\na→b").resolve (7 : Nat))) ∧
      (ofText "é\na→b").resolve (-(1 : Nat)) = (Text.ofString "é\na→b").length - 1 := by
  have h4 : Text.isCharStart "é\na→b" 4 = true := by decide +kernel
  have h7 : Text.isCharStart "é\na→b" 7 = true := by decide +kernel
  obtain ⟨hpoints, hlater, hnegative⟩ := pointsOut "é\na→b"
  obtain ⟨front, back, hs, hlength, hpoint, -⟩ := hpoints 4 h4
  exact ⟨h4, h7, ⟨front, back, hs, hlength, hpoint⟩, by decide +kernel, hlater 4 7 h4 h7 (by decide),
    hnegative 1 le_rfl (by decide +kernel)⟩

end LineTable

end Regen
