import Regen.Proofs.Coordinates
import Regen.Proofs.Nesting

/-!
# The lines shown with a block

A snippet of a block is made of the lines that the block is written on, some lines in front of them and some
behind. Backwards, each step goes to the start of the line in front, so that as many lines are shown
as were asked for. Forwards, a step looks for a line feed *behind* the byte at which it stands. That is right at the
end of a line. But the first step stands at the start of one, and if the line is blank, the step goes to the end of
the line behind it. The line feed at the end is dropped in the end, and if the last line is blank, it is the line
feed in front of that line that is dropped. So **a blank line that is shown first counts as none, and one that would be
shown last is left out** (`Document.snippet_eq`), and only if neither or both of it happens, the lines are those that
were asked for.

Lines are counted as they are written, each with the line feed that ends it (`Text.writtenLines`). In
particular there is no line behind the last line feed of a text.
-/

namespace Regen

open Text (newline lines ofLines)

namespace Text

/-! ## Lines that are ended -/

/-- Lines, each ended by a line feed. -/
def terminated (ls : List Text) : Text := ls.flatMap (· ++ [newline])

@[simp] theorem terminated_nil : terminated [] = [] := rfl

@[simp] theorem terminated_append (ls ms : List Text) : terminated (ls ++ ms) = terminated ls ++ terminated ms :=
  List.flatMap_append

@[simp] theorem terminated_cons (l : Text) (ls : List Text) :
    terminated (l :: ls) = l ++ newline :: terminated ls := by
  simp [terminated]

/-- The last of some lines is not ended, and the others are. -/
theorem ofLines_append (ls : List Text) {ms : List Text} (h : ms ≠ []) :
    ofLines (ls ++ ms) = terminated ls ++ ofLines ms := by
  induction ls with
  | nil => rfl
  | cons l ls ih =>
    rw [List.cons_append, ofLines_cons l (by simp [h]), ih, terminated_cons, List.append_assoc]
    rfl

/-- Lines end at a line feed, which belongs to none of them. -/
theorem terminated_eq (ls : List Text) (h : ls ≠ []) : terminated ls = ofLines ls ++ [newline] := by
  induction ls using List.reverseRecOn with
  | nil => exact absurd rfl h
  | append_singleton ls l => simp [ofLines_append]

theorem getLast?_terminated {ls : List Text} (h : ls ≠ []) : (terminated ls).getLast? = some newline := by
  rw [terminated_eq ls h, List.getLast?_concat]

variable {ls : List Text}

/-- Lines that are ended are lines of a text. -/
theorem lines_terminated_append (h : ∀ l ∈ ls, newline ∉ l) (y : Text) :
    lines (terminated ls ++ y) = ls ++ lines y := by
  induction ls with
  | nil => rfl
  | cons l ls ih =>
    rw [terminated_cons, List.append_assoc, List.cons_append, lines_append_newline (h l (by simp)),
      ih fun l' hl' => h l' (by simp [hl']), List.cons_append]

theorem count_terminated (h : ∀ l ∈ ls, newline ∉ l) : (terminated ls).count newline = ls.length := by
  induction ls with
  | nil => rfl
  | cons l ls ih =>
    rw [terminated_cons, List.count_append, List.count_cons_self, ih fun l' hl' => h l' (by simp [hl']),
      List.count_eq_zero.2 (h l (by simp)), Nat.zero_add, List.length_cons]

/-- A text of whole lines is made of lines that are ended. -/
theorem Whole.exists_terminated {x : Text} (h : Whole x) :
    ∃ ls, x = terminated ls ∧ ∀ l ∈ ls, newline ∉ l := by
  rcases h with rfl | h
  · exact ⟨[], rfl, by simp⟩
  · obtain ⟨w, rfl⟩ := List.getLast?_eq_some_iff.1 h
    refine ⟨lines w, ?_, fun l hl => newline_notMem_of_mem_lines hl⟩
    rw [terminated_eq _ (lines_ne_nil w), ofLines_lines]

/-- A text ends behind lines that are ended with its last line, and has as many line feeds as there are such lines. -/
theorem exists_terminated_lastLine (t : Text) : ∃ ls, t = terminated ls ++ lastLine t ∧ (∀ l ∈ ls, newline ∉ l) ∧
    t.count newline = ls.length := by
  obtain ⟨u, ht, hu⟩ := exists_whole_lastLine t
  obtain ⟨ls, rfl, hls⟩ := hu.exists_terminated
  refine ⟨ls, ht, hls, ?_⟩
  rw [ht, List.count_append, count_terminated hls, List.count_eq_zero.2 (newline_notMem_lastLine t), Nat.add_zero]

/-- **The lines that a text is written on.** No line begins behind the line feed at its end. -/
def writtenLines (t : Text) : List Text :=
  if t = [] ∨ t.getLast? = some newline then (lines t).dropLast else lines t

/-- What follows whole lines is written on the lines behind them. -/
theorem writtenLines_terminated_append (h : ∀ l ∈ ls, newline ∉ l) (y : Text) :
    writtenLines (terminated ls ++ y) = ls ++ writtenLines y := by
  have hwhole : (terminated ls ++ y = [] ∨ (terminated ls ++ y).getLast? = some newline) ↔
      (y = [] ∨ y.getLast? = some newline) := by
    by_cases hy : y = []
    · subst hy
      by_cases hls : ls = []
      · simp [hls]
      · simp [terminated_eq ls hls]
    · simp [hy, List.getLast?_append_of_ne_nil _ hy]
  rw [writtenLines, writtenLines, lines_terminated_append h]
  simp only [hwhole]
  split
  · exact List.dropLast_append_of_ne_nil (lines_ne_nil y)
  · rfl

@[simp] theorem writtenLines_nil : writtenLines [] = [] := rfl

/-- The lines of a text are those that it is written on, and perhaps an empty one behind them. -/
theorem lines_eq_writtenLines (t : Text) :
    lines t = writtenLines t ∧ (lines t).getLast? ≠ some [] ∨ lines t = writtenLines t ++ [[]] := by
  have hlast := List.dropLast_append_getLast (lines_ne_nil t)
  rw [writtenLines]
  split
  next h =>
    right
    obtain ⟨ls, rfl, hls⟩ := Whole.exists_terminated h
    have hlines := lines_terminated_append hls []
    rw [List.append_nil] at hlines
    simp [hlines, lines]
  next h =>
    left
    refine ⟨rfl, fun hnil => h ?_⟩
    obtain ⟨ms, hms⟩ := List.getLast?_eq_some_iff.1 hnil
    rw [← ofLines_lines t, hms, ofLines_append _ (List.cons_ne_nil _ _)]
    by_cases hne : ms = []
    · simp [hne]
    · right
      simp [terminated_eq ms hne]

/-- The first line of a text that is not empty is one that it is written on. -/
theorem head?_writtenLines {t next : Text} {back : List Text} (ht : t ≠ []) (hlines : lines t = next :: back) :
    (writtenLines t)[0]? = some next := by
  rcases lines_eq_writtenLines t with ⟨h, -⟩ | h
  · rw [← h, hlines]
    rfl
  · cases hwritten : writtenLines t with
    | nil => exact absurd (by rw [← ofLines_lines t, h, hwritten]; rfl) ht
    | cons l ls =>
      rw [hlines, hwritten, List.cons_append] at h
      rw [(List.cons_eq_cons.1 h).1]
      rfl

/-- The text of some lines begins with that of the first of them. -/
theorem exists_ofLines_take (ls : List Text) {m : Nat} (hm : m ≠ 0) :
    ∃ w, ofLines ls = ofLines (ls.take m) ++ w := by
  by_cases hrest : ls.drop m = []
  · exact ⟨[], by rw [List.append_nil, List.take_of_length_le (List.drop_eq_nil_iff.1 hrest)]⟩
  · have htake : ls.take m ≠ [] := fun h => by
      rcases List.take_eq_nil_iff.1 h with rfl | rfl
      · exact hm rfl
      · simp at hrest
    refine ⟨newline :: ofLines (ls.drop m), ?_⟩
    calc ofLines ls = ofLines (ls.take m ++ ls.drop m) := by rw [List.take_append_drop]
      _ = ofLines (ls.take m) ++ newline :: ofLines (ls.drop m) := by
        rw [ofLines_append _ hrest, terminated_eq _ htake, List.append_assoc, List.singleton_append]

end Text

namespace Block

open Text (terminated writtenLines)

/-! ## Steps over lines -/

section

variable {front : List Text} (hfront : ∀ l ∈ front, newline ∉ l)
include hfront

/-- **Backwards, as many lines are passed** as there are, but no more than asked for. -/
theorem widenBack_terminated (y : Text) (before : Nat) :
    widenBack (terminated front ++ y) before (terminated front).length
      = (terminated (front.take (front.length - before))).length := by
  induction before generalizing front y with
  | zero => simp [widenBack]
  | succ before ih =>
    rw [widenBack]
    induction front using List.reverseRecOn with
    | nil => simp
    | append_singleton front l =>
      have hfront' : ∀ l ∈ front, newline ∉ l := fun l hl => hfront l (by simp [hl])
      have hl : newline ∉ l := hfront l (by simp)
      have hstart : Text.lineStart (terminated (front ++ [l]) ++ y) ((terminated (front ++ [l])).length - 1)
          = (terminated front).length := by
        have h := Text.lineStart_append (terminated front ++ l) (newline :: y)
        have hlast : Text.lastLine (terminated front ++ l) = l := by
          by_cases hne : front = []
          · simpa [hne] using Text.lastLine_of_notMem hl
          · rw [Text.terminated_eq front hne, List.append_assoc]
            exact Text.lastLine_append_newline _ hl
        rw [hlast, List.length_append, Nat.add_sub_cancel] at h
        simpa using h
      rw [if_neg (by simp), hstart]
      have hstep := ih hfront' (l ++ newline :: y)
      rw [show terminated front ++ (l ++ newline :: y) = terminated (front ++ [l]) ++ y by simp] at hstep
      rw [hstep, List.length_append, List.length_singleton, Nat.add_sub_add_right,
        List.take_append_of_le_length (Nat.sub_le ..)]

end

/-- A search from the start of a line finds its end. -/
theorem byteIn?_line {line : Text} (hline : newline ∉ line) (back : List Text) (pre : Text) :
    (Text.byteIn? newline (pre ++ ofLines (line :: back)) pre.length
      (pre ++ ofLines (line :: back)).length).getD (pre ++ ofLines (line :: back)).length
        = (pre ++ line).length := by
  have hfind := Text.byteIn?_append newline pre (ofLines (line :: back)) []
  rw [List.append_nil, ← List.length_append] at hfind
  rw [hfind]
  cases back with
  | nil =>
    rw [Text.ofLines_singleton, List.idxOf?_eq_none_iff.2 hline]
    rfl
  | cons l back =>
    rw [Text.ofLines_cons line (List.cons_ne_nil l back), Text.idxOf?_eq_some.2 ⟨line, _, rfl, rfl, hline⟩]
    simp [Nat.add_comm]

/-- A step forwards goes to the first line feed behind the byte that follows. -/
theorem widenForward_succ {t : Text} {stop : Nat} (h : stop < t.length) (after : Nat) :
    widenForward t (after + 1) stop
      = widenForward t after ((Text.byteIn? newline t (stop + 1) t.length).getD t.length) := by
  rw [widenForward, if_neg (Nat.not_le_of_lt h)]
  cases Text.byteIn? newline t (stop + 1) t.length <;> rfl

/-- **From the end of a line**, each step goes to the end of the next one, as long as there is one. -/
theorem widenForward_line (after : Nat) {line : Text} {back : List Text} (hline : newline ∉ line)
    (hback : ∀ l ∈ back, newline ∉ l) (pre : Text) :
    widenForward (pre ++ ofLines (line :: back)) after (pre ++ line).length
      = (pre ++ ofLines ((line :: back).take (after + 1))).length := by
  induction after generalizing pre line back with
  | zero => simp [widenForward]
  | succ after ih =>
    cases back with
    | nil =>
      rw [widenForward, if_pos (by simp)]
      simp
    | cons next back =>
      obtain ⟨hnext, hback⟩ := List.forall_mem_cons.1 hback
      have htext : pre ++ ofLines (line :: next :: back)
          = (pre ++ line ++ [newline]) ++ ofLines (next :: back) := by
        rw [Text.ofLines_cons line (List.cons_ne_nil next back)]
        simp
      have hpre : (pre ++ line).length + 1 = (pre ++ line ++ [newline]).length := by simp [Nat.add_assoc]
      have hlt : (pre ++ line).length < (pre ++ ofLines (line :: next :: back)).length := by
        rw [htext]
        simp only [List.length_append, List.length_singleton]
        omega
      have hshown : ofLines ((line :: next :: back).take (after + 1 + 1))
          = line ++ newline :: ofLines ((next :: back).take (after + 1)) := Text.ofLines_cons line (by simp)
      rw [widenForward_succ hlt, htext, hpre, byteIn?_line hnext, ih hnext hback, hshown]
      simp

/-- **From the start of a line**, the first step goes to the end of it, unless the line is blank. Then the step goes
to the end of the next one. -/
theorem widenForward_start (after : Nat) {next : Text} {back : List Text} (hnext : newline ∉ next)
    (hback : ∀ l ∈ back, newline ∉ l) (hne : ofLines (next :: back) ≠ []) (pre : Text) :
    widenForward (pre ++ ofLines (next :: back)) (after + 1) pre.length
      = (pre ++ ofLines ((next :: back).take (after + 1 + if next = [] then 1 else 0))).length := by
  have hlt : pre.length < (pre ++ ofLines (next :: back)).length := by
    have := List.length_pos_of_ne_nil hne
    rw [List.length_append]
    omega
  rw [widenForward_succ hlt]
  cases next with
  | nil =>
    cases back with
    | nil => exact absurd rfl hne
    | cons line back =>
      obtain ⟨hline, hback⟩ := List.forall_mem_cons.1 hback
      have htext : pre ++ ofLines ([] :: line :: back) = (pre ++ [newline]) ++ ofLines (line :: back) := by
        rw [Text.ofLines_cons [] (List.cons_ne_nil line back)]
        simp
      have hshown : ofLines (([] :: line :: back).take (after + 1 + 1))
          = newline :: ofLines ((line :: back).take (after + 1)) := Text.ofLines_cons [] (by simp)
      rw [htext, show pre.length + 1 = (pre ++ [newline]).length by simp, byteIn?_line hline,
        widenForward_line after hline hback, if_pos rfl, hshown]
      simp
  | cons b next =>
    have hfirst : ∀ ms : List Text, ofLines ((b :: next) :: ms) = b :: ofLines (next :: ms) := by
      intro ms
      cases ms with
      | nil => rfl
      | cons m ms => simp [Text.ofLines_cons]
    have hnext : newline ∉ next := fun h => hnext (List.mem_cons_of_mem _ h)
    have htext : pre ++ ofLines ((b :: next) :: back) = (pre ++ [b]) ++ ofLines (next :: back) := by
      rw [hfirst]
      simp
    rw [htext, show pre.length + 1 = (pre ++ [b]).length by simp, byteIn?_line hnext,
      widenForward_line after hnext hback, if_neg (List.cons_ne_nil b next), Nat.add_zero,
      List.take_succ_cons, List.take_succ_cons, hfirst]
    simp

/-! ## What is cut out -/

/-- A stretch of a text without the line feed at its end. -/
def trimmed (t : Text) (start stop : Nat) : Text :=
  if stop ≠ 0 && t[stop - 1]? == some newline then t.extract start (stop - 1) else t.extract start stop

theorem trimmed_append (u w : Text) {v : Text} (hv : v ≠ []) :
    trimmed (u ++ v ++ w) u.length (u ++ v).length
      = if v.getLast? = some newline then v.dropLast else v := by
  obtain ⟨v, b, rfl⟩ := List.eq_nil_or_concat v |>.resolve_left hv
  have hbyte : (u ++ (v ++ [b]) ++ w)[(u ++ (v ++ [b])).length - 1]? = some b := by
    rw [List.getElem?_append_left (by simp), ← List.getLast?_eq_getElem?]
    simp
  rw [List.concat_eq_append, trimmed, hbyte]
  by_cases hb : b = newline
  · simp [hb]
  · have hlength : (u ++ (v ++ [b])).length = u.length + (v ++ [b]).length := List.length_append
    rw [hlength, Text.extract_append]
    simp [hb]

/-- A stretch of lines is cut out up to the last of them that is not blank, or up to one blank line. -/
theorem trimmed_ofLines (u w : Text) {ls : List Text} (hls : ∀ l ∈ ls, newline ∉ l) (hne : ofLines ls ≠ []) :
    trimmed (u ++ ofLines ls ++ w) u.length (u ++ ofLines ls).length
      = ofLines (if ls.getLast? = some [] then ls.dropLast else ls) := by
  rw [trimmed_append u w hne]
  rcases List.eq_nil_or_concat ls with rfl | ⟨ls, l, rfl⟩
  · exact absurd rfl hne
  · rw [List.concat_eq_append] at hne hls ⊢
    rw [Text.ofLines_append ls (List.cons_ne_nil l []), Text.ofLines_singleton] at hne ⊢
    by_cases hl : l = []
    · have hls : ls ≠ [] := fun h => hne (by simp [h, hl])
      simp [hl, Text.terminated_eq ls hls]
    · have hlast : (terminated ls ++ l).getLast? ≠ some newline := by
        rw [List.getLast?_append_of_ne_nil _ hl]
        exact fun h => hls l (by simp) (List.mem_of_getLast? h)
      rw [if_neg hlast, if_neg (by simpa using hl), Text.ofLines_append ls (List.cons_ne_nil l []),
        Text.ofLines_singleton]

/-- Lines that are ended are cut out. -/
theorem trimmed_terminated (u w : Text) {ls : List Text} (hne : ls ≠ []) :
    trimmed (u ++ terminated ls ++ w) u.length (u ++ terminated ls).length = ofLines ls := by
  rw [trimmed_append u w (by simp [Text.terminated_eq ls hne]), Text.terminated_eq ls hne]
  simp

/-! ## Which lines are shown -/

/-- The line at which the steps forwards end, from zero, if `reach` lines are passed before the first of them. -/
def contextLine (ls : List Text) (reach after : Nat) : Nat :=
  if ls[reach]? = some [] then reach + after else reach + after - 1

/-- How many lines of the text there are up to the last one that is shown. -/
def contextStop (ls : List Text) (reach after : Nat) : Nat :=
  if after = 0 then reach
  else if ls.length ≤ contextLine ls reach after then ls.length
  else if ls[contextLine ls reach after]? = some [] then contextLine ls reach after
  else contextLine ls reach after + 1

/-- Of the lines of a text, those are shown that it is written on. -/
theorem shown_eq {all ls : List Text} (hall : all = ls ∧ all.getLast? ≠ some [] ∨ all = ls ++ [[]])
    {start reach after : Nat} (hstart : start < reach) (hreach : reach < ls.length) (hafter : after ≠ 0) :
    (if ((all.take (contextLine ls reach after + 1)).drop start).getLast? = some []
      then ((all.take (contextLine ls reach after + 1)).drop start).dropLast
      else (all.take (contextLine ls reach after + 1)).drop start)
        = (ls.take (contextStop ls reach after)).drop start := by
  have hline : reach ≤ contextLine ls reach after := by
    unfold contextLine
    split <;> omega
  rw [contextStop, if_neg hafter]
  generalize contextLine ls reach after = i at hline ⊢
  by_cases hi : ls.length ≤ i
  · rw [if_pos hi, List.take_of_length_le le_rfl]
    rcases hall with ⟨rfl, hlast⟩ | rfl
    · have hlast' : (all.drop start).getLast? = all.getLast? := by
        rw [List.getLast?_drop, if_neg (by omega)]
      rw [List.take_of_length_le (by omega), hlast', if_neg hlast]
    · rw [List.take_of_length_le (by simpa using hi), List.drop_append_of_le_length (by omega)]
      simp
  · have hlt : i < ls.length := Nat.lt_of_not_le hi
    have htake : all.take (i + 1) = ls.take i ++ [ls[i]] := by
      have hfront : all.take (i + 1) = ls.take (i + 1) := by
        rcases hall with ⟨rfl, -⟩ | rfl
        · rfl
        · exact List.take_append_of_le_length hlt
      rw [hfront, List.take_succ_eq_append_getElem hlt]
    rw [if_neg hi, htake, List.drop_append_of_le_length (by simp; omega), List.getLast?_concat,
      List.getElem?_eq_getElem hlt]
    by_cases hblank : ls[i] = []
    · simp [hblank]
    · rw [if_neg (by simpa using hblank), if_neg (by simpa using hblank),
        List.take_succ_eq_append_getElem hlt, List.drop_append_of_le_length (by simp; omega)]

section

variable {front : List Text} (hfront : ∀ l ∈ front, newline ∉ l) {first : Nat}
include hfront

/-- Backwards from one of the lines in front of an offset. -/
theorem widenBack_take (hfirst : first ≤ front.length) (y : Text) (before : Nat) :
    widenBack (terminated front ++ y) before (terminated (front.take first)).length
      = (terminated (front.take (first - before))).length := by
  have h := widenBack_terminated (fun l (hl : l ∈ front.take first) => hfront l (List.mem_of_mem_take hl))
    (terminated (front.drop first) ++ y) before
  rwa [← List.append_assoc, ← Text.terminated_append, List.take_append_drop, List.length_take,
    min_eq_left hfirst, List.take_take, min_eq_left (Nat.sub_le ..)] at h

omit hfront in
/-- The lines in front of an offset, from one of them on. -/
theorem trimmed_front (hfirst : first < front.length) (y : Text) :
    trimmed (terminated front ++ y) (terminated (front.take first)).length (terminated front).length
      = ofLines (front.drop first) := by
  have hne : front.drop first ≠ [] := by
    rw [ne_eq, List.drop_eq_nil_iff]
    omega
  have h := trimmed_terminated (terminated (front.take first)) y hne
  rwa [← Text.terminated_append, List.take_append_drop] at h

/-- The lines in front of an offset, from one of them on, with some of the lines behind it. -/
theorem trimmed_behind {k m : Nat} (hk : k < front.length) {back : List Text} (hback : ∀ l ∈ back, newline ∉ l)
    (hne : back ≠ []) (hm : m ≠ 0) {shown : List Text}
    (hshown : ((front ++ back).take (front.length + m)).drop k = shown) :
    trimmed (terminated front ++ ofLines back) (terminated (front.take k)).length
        (terminated front ++ ofLines (back.take m)).length
      = ofLines (if shown.getLast? = some [] then shown.dropLast else shown) := by
  obtain ⟨w, hw⟩ := Text.exists_ofLines_take back hm
  have htake : back.take m ≠ [] := by simpa using ⟨hm, hne⟩
  rw [List.take_length_add_append, List.drop_append_of_le_length hk.le] at hshown
  have htext : ofLines shown = terminated (front.drop k) ++ ofLines (back.take m) := by
    rw [← hshown]
    exact Text.ofLines_append _ htake
  have hunended : ∀ l ∈ shown, newline ∉ l := by
    intro l hl
    rw [← hshown] at hl
    rcases List.mem_append.1 hl with hl | hl
    · exact hfront l (List.mem_of_mem_drop hl)
    · exact hback l (List.mem_of_mem_take hl)
  have hpos : ofLines shown ≠ [] := by
    rw [htext, Text.terminated_eq _ (by rw [ne_eq, List.drop_eq_nil_iff]; omega)]
    simp
  have hcut := trimmed_ofLines (terminated (front.take k)) w hunended hpos
  rwa [htext, ← List.append_assoc, ← Text.terminated_append, List.take_append_drop, List.append_assoc, ← hw] at hcut

/-- The lines in front of an offset, from one of them on, with those that a number of steps lead to behind it. -/
theorem trimmed_forward {k : Nat} (hk : k < front.length) {y : Text} (hy : y ≠ []) (after : Nat) :
    trimmed (terminated front ++ y) (terminated (front.take k)).length
        (widenForward (terminated front ++ y) (after + 1) (terminated front).length)
      = ofLines (((front ++ writtenLines y).take
          (contextStop (front ++ writtenLines y) front.length (after + 1))).drop k) := by
  obtain ⟨next, back, hly⟩ := List.exists_cons_of_ne_nil (Text.lines_ne_nil y)
  have hlines : ∀ l ∈ next :: back, newline ∉ l := fun l hl =>
    Text.newline_notMem_of_mem_lines (hly ▸ hl)
  obtain ⟨hnext, hback⟩ := List.forall_mem_cons.1 hlines
  have hwritten : ofLines (next :: back) = y := by rw [← hly, Text.ofLines_lines]
  have hhead := Text.head?_writtenLines hy hly
  have hpos : 0 < (writtenLines y).length := (List.getElem?_eq_some_iff.1 hhead).1
  have hnextLine : (front ++ writtenLines y)[front.length]? = some next := by
    rw [List.getElem?_append_right le_rfl, Nat.sub_self, hhead]
  -- the steps end with the line `contextLine`, `m` lines behind the offset
  have hcount : front.length + (after + 1 + if next = [] then 1 else 0)
      = contextLine (front ++ writtenLines y) front.length (after + 1) + 1 := by
    rw [contextLine, hnextLine]
    by_cases h : next = [] <;> simp [h] <;> omega
  have hsteps := widenForward_start after hnext hback (hwritten ▸ hy) (terminated front)
  have hm : (after + 1 + if next = [] then 1 else 0) ≠ 0 := by omega
  generalize (after + 1 + if next = [] then 1 else 0) = m at hsteps hcount hm
  rw [hwritten] at hsteps
  have hall : front ++ next :: back = front ++ writtenLines y ∧
      (front ++ next :: back).getLast? ≠ some [] ∨
        front ++ next :: back = (front ++ writtenLines y) ++ [[]] := by
    rw [← hly]
    rcases Text.lines_eq_writtenLines y with ⟨h, hlast⟩ | h
    · refine .inl ⟨by rw [h], ?_⟩
      rwa [List.getLast?_append_of_ne_nil _ (Text.lines_ne_nil y)]
    · exact .inr (by rw [h, List.append_assoc])
  have hcut := trimmed_behind hfront hk hlines (List.cons_ne_nil next back) hm rfl
  rw [hcount, hwritten, shown_eq hall (by omega) (by simpa using hpos) (Nat.succ_ne_zero after)] at hcut
  rw [hsteps, hcut]

/-- **The lines shown with a block** that begins on one of the lines in front of an offset and ends with the last
of them. -/
theorem trimmed_widened (hfirst : first < front.length) (y : Text) (before after : Nat) :
    trimmed (terminated front ++ y)
        (widenBack (terminated front ++ y) before (terminated (front.take first)).length)
        (widenForward (terminated front ++ y) after (terminated front).length)
      = ofLines (((writtenLines (terminated front ++ y)).take
          (contextStop (writtenLines (terminated front ++ y)) front.length after)).drop (first - before)) := by
  have hlt : first - before < front.length := by omega
  rw [widenBack_take hfront hfirst.le, Text.writtenLines_terminated_append hfront]
  cases after with
  | zero =>
    rw [widenForward, trimmed_front hlt, contextStop, if_pos rfl, List.take_left]
  | succ after =>
    by_cases hy : y = []
    · subst hy
      have hstop : contextStop (front ++ writtenLines []) front.length (after + 1) = front.length := by
        simp [contextStop, contextLine]
      rw [widenForward, if_pos (by simp), trimmed_front hlt, hstop, List.take_left]
    · exact trimmed_forward hfront hlt hy after

/-- The same where the last line is not ended, and the block ends with it. -/
theorem trimmed_unended (hfirst : first ≤ front.length) {line : Text} (hline : newline ∉ line) (hne : line ≠ [])
    (before after : Nat) :
    trimmed (terminated front ++ line)
        (widenBack (terminated front ++ line) before (terminated (front.take first)).length)
        (widenForward (terminated front ++ line) after (terminated front ++ line).length)
      = ofLines (((writtenLines (terminated front ++ line)).take
          (contextStop (writtenLines (terminated front ++ line)) (front.length + 1) after)).drop
            (first - before)) := by
  have hstay : widenForward (terminated front ++ line) after (terminated front ++ line).length
      = (terminated front ++ line).length := by
    cases after with
    | zero => rfl
    | succ after => rw [widenForward, if_pos le_rfl]
  have hwritten : writtenLines line = [line] := by
    rw [writtenLines, Text.lines_of_notMem hline, if_neg]
    rintro (h | h)
    · exact hne h
    · exact hline (List.mem_of_getLast? h)
  have hstop : contextStop (front ++ [line]) (front.length + 1) after = (front ++ [line]).length := by
    cases after with
    | zero => simp [contextStop]
    | succ after => simp [contextStop, contextLine]
  have hunended : ∀ l ∈ front.drop (first - before) ++ [line], newline ∉ l := by
    intro l hl
    rcases List.mem_append.1 hl with hl | hl
    · exact hfront l (List.mem_of_mem_drop hl)
    · rwa [List.mem_singleton.1 hl]
  have htext : ofLines (front.drop (first - before) ++ [line]) = terminated (front.drop (first - before)) ++ line := by
    rw [Text.ofLines_append _ (List.cons_ne_nil line []), Text.ofLines_singleton]
  have hshown := trimmed_ofLines (terminated (front.take (first - before))) [] hunended (by simp [htext, hne])
  rw [htext, List.append_nil, ← List.append_assoc, ← Text.terminated_append, List.take_append_drop,
    if_neg (by simpa using hne)] at hshown
  rw [hstay, widenBack_take hfront hfirst, Text.writtenLines_terminated_append hfront, hwritten, hstop,
    List.take_length, hshown, List.drop_append_of_le_length (by omega)]

end

variable {s : Settings} {t : Text} {b : Block}

/-- **The snippet of a block** is cut out from the start of the line of its opener to the end of the line of its
last closer, both moved on. -/
theorem Stands.snippet_eq_trimmed (hb : b.Stands s t) (before after : Nat) :
    b.snippet t before after = trimmed t (widenBack t before (Text.lineStart t b.opening.openAt))
      (widenForward t after (Text.lineStop t b.ending.closeEnd)) := by
  have hordered : b.opening.closeEnd ≤ b.ending.openAt := hb.before.ordered
  have hwidth := hb.opening.width
  have hlineStart : b.opening.lineStart = Text.lineStart t b.opening.openAt := by
    have h := Text.lineStart_append (t.take b.opening.openAt) (t.drop b.opening.openAt)
    have hbound := hb.opening.bound
    rw [List.take_append_drop, List.length_take, min_eq_left (by omega), ← hb.opening.lead] at h
    exact h.symm
  have hstart := openSpan_start_eq hb.formed hordered
  have hstop := endSpan_stop_eq hb.formed hordered
  rw [snippet]
  cases hinline : b.isInline with
  | true =>
    rw [hinline, if_pos rfl] at hstart hstop
    rw [hstart, hstop]
    rfl
  | false =>
    rw [hinline, if_neg Bool.false_ne_true] at hstart hstop
    rw [hstart, hstop, hlineStart]
    rfl

end Block

/-! ## The lines of a block -/

namespace Text

/-- **The line of an offset starts** behind as many lines as there are line feeds in front of the offset. -/
theorem lineStart_eq (x y : Text) : lineStart (x ++ y) x.length
    = (terminated ((lines (x ++ y)).take (x.count newline))).length := by
  obtain ⟨ls, hx, hls, hcount⟩ := exists_terminated_lastLine x
  have hlength := congrArg List.length hx
  rw [List.length_append] at hlength
  rw [lineStart_append, hcount]
  conv_rhs => rw [hx, List.append_assoc, lines_terminated_append hls, List.take_left]
  omega

/-- **Where the line of an offset ends**, the text is cut behind whole lines, or at its end. -/
theorem lineStop_cases {t : Text} {i : Nat} (hi : i ≤ t.length) :
    (∃ front y, t = terminated front ++ y ∧ (∀ l ∈ front, newline ∉ l) ∧
      lineStop t i = (terminated front).length ∧ front.length = (t.take i).count newline + 1 ∧
      i < lineStop t i) ∨
    (lineStop t i = t.length ∧ (t.take i).count newline = t.count newline) := by
  obtain ⟨x, y, rfl, rfl⟩ : ∃ x y, t = x ++ y ∧ i = x.length :=
    ⟨t.take i, t.drop i, (List.take_append_drop i t).symm, by simp [hi]⟩
  rw [List.take_left]
  rcases notMem_or_eq_newline y with hy | ⟨u, v, rfl, hu⟩
  · right
    rw [lineStop_append_of_notMem x hy, List.count_append, List.count_eq_zero.2 hy]
    exact ⟨rfl, rfl⟩
  · left
    have hstop := lineStop_append_newline x v hu
    rw [List.append_assoc] at hstop
    obtain ⟨front, hfront, hlines⟩ := Whole.exists_terminated (x := x ++ u ++ [newline]) (.inr (by simp))
    refine ⟨front, v, by rw [← hfront]; simp, hlines, ?_, ?_, ?_⟩
    · rw [hstop, ← hfront]
      simp [Nat.add_assoc]
    · have hcount := congrArg (List.count newline) hfront
      rw [count_terminated hlines] at hcount
      rw [← hcount]
      simp [List.count_append, List.count_eq_zero.2 hu]
    · rw [hstop, List.length_append]
      omega

theorem count_take_mono (t : Text) {i j : Nat} (h : i ≤ j) :
    (t.take i).count newline ≤ (t.take j).count newline :=
  (List.take_prefix_take_left h).sublist.count_le newline

/-- The last byte in front of an offset may be a line feed. -/
theorem count_take_pred {t : Text} {i : Nat} (hpos : 0 < i) (hi : i ≤ t.length) : (t.take i).count newline
    = (t.take (i - 1)).count newline + if t[i - 1]? = some newline then 1 else 0 := by
  obtain ⟨j, rfl⟩ := Nat.exists_eq_succ_of_ne_zero hpos.ne'
  rw [Nat.succ_sub_one, Nat.succ_eq_add_one, List.take_succ_eq_append_getElem hi, List.count_append,
    List.getElem?_eq_getElem hi]
  by_cases h : t[j] = newline <;> simp [h]

end Text

namespace Block

open Text (terminated writtenLines)

/-- The line on which what is written back for the open marker starts, from zero. -/
def topLine (t : Text) (b : Block) : Nat := (t.take b.openSpan.start).count newline

/-- The line that holds the last character of what is written back for the end marker, from zero. -/
def bottomLine (t : Text) (b : Block) : Nat := (t.take (b.endSpan.stop - 1)).count newline

/-- How many lines of the text there are up to the last one that is shown for the block itself. It is one line more
where an inline block ends with a line feed of its closer and more of the text follows it. -/
def reach (t : Text) (b : Block) : Nat :=
  if b.isInline ∧ t[b.endSpan.stop - 1]? = some newline ∧ b.endSpan.stop < t.length then b.bottomLine t + 2
  else b.bottomLine t + 1

variable {s : Settings} {t : Text} {b : Block}

/-- What is written back for the open marker starts on the line of its opener. -/
theorem Stands.topLine_eq (hb : b.Stands s t) : b.topLine t = (t.take b.opening.openAt).count newline := by
  have hwidth := hb.opening.width
  have hbound := hb.opening.bound
  rw [topLine, openSpan_start_eq hb.formed hb.before.ordered]
  split
  · rfl
  · obtain ⟨u, hu, hwhole⟩ := Text.exists_whole_lastLine (t.take b.opening.openAt)
    have hno : newline ∉ b.opening.lead := by
      rw [hb.opening.lead]
      exact Text.newline_notMem_lastLine _
    rw [← hb.opening.lead] at hu
    have hlength := congrArg List.length hu
    rw [List.length_take, min_eq_left (by omega), List.length_append] at hlength
    have htake : t.take b.opening.lineStart = u := by
      have hle : b.opening.lineStart ≤ b.opening.openAt := Nat.sub_le ..
      rw [← min_eq_left hle, ← List.take_take, hu, Marker.lineStart, hlength, Nat.add_sub_cancel, List.take_left]
    rw [htake, hu, List.count_append, List.count_eq_zero.2 hno, Nat.add_zero]

/-- The markers of a block take up some of the text. -/
theorem Stands.openAt_lt_closeEnd (hs : Document.Usable s) (hb : b.Stands s t) :
    b.opening.openAt < b.ending.closeEnd := by
  have hordered : b.opening.closeEnd ≤ b.ending.openAt := hb.before.ordered
  have howidth := hb.opening.openAt_lt hs
  have hewidth := hb.ending.openAt_le
  omega

/-- The lines up to the end of a block whose last line is ended behind its end marker. -/
theorem Stands.reach_of_lt (hs : Document.Usable s) (hb : b.Stands s t)
    (hlt : b.ending.closeEnd < Text.lineStop t b.ending.closeEnd)
    (hcount : (t.take (Text.lineStop t b.ending.closeEnd)).count newline
      = (t.take b.ending.closeEnd).count newline + 1)
    (hlast : t[Text.lineStop t b.ending.closeEnd - 1]? = some newline) :
    b.reach t = (t.take b.ending.closeEnd).count newline + 1 := by
  have hopen := hb.openAt_lt_closeEnd hs
  have hbound := Text.lineStop_bounds t hb.ending.bound
  have hstop := endSpan_stop_eq hb.formed hb.before.ordered
  cases hinline : b.isInline with
  | true =>
    have hclose := Text.count_take_pred (t := t) (i := b.ending.closeEnd) (by omega) (by omega)
    rw [hinline, if_pos rfl] at hstop
    rw [reach, bottomLine, hinline, hstop]
    by_cases hfeed : t[b.ending.closeEnd - 1]? = some newline
    · rw [if_pos hfeed] at hclose
      rw [if_pos ⟨rfl, hfeed, by omega⟩]
      omega
    · rw [if_neg hfeed] at hclose
      rw [if_neg fun h => hfeed h.2.1]
      omega
  | false =>
    have hclose := Text.count_take_pred (t := t) (i := Text.lineStop t b.ending.closeEnd) (by omega) (by omega)
    rw [if_pos hlast] at hclose
    rw [hinline, if_neg Bool.false_ne_true] at hstop
    rw [reach, bottomLine, hinline, hstop, if_neg fun h => Bool.false_ne_true h.1]
    omega

/-- The lines up to the end of a block that reaches to the end of the text. -/
theorem Stands.reach_of_end (hs : Document.Usable s) (hb : b.Stands s t)
    (hline : Text.lineStop t b.ending.closeEnd = t.length)
    (hcount : (t.take b.ending.closeEnd).count newline = t.count newline) :
    b.reach t = t.count newline + if t[t.length - 1]? = some newline then 0 else 1 := by
  have hopen := hb.openAt_lt_closeEnd hs
  have hbound := hb.ending.bound
  have hstop := endSpan_stop_eq hb.formed hb.before.ordered
  have hend := Text.count_take_pred (t := t) (i := t.length) (by omega) le_rfl
  rw [List.take_length] at hend
  cases hinline : b.isInline with
  | true =>
    have hclose := Text.count_take_pred (t := t) (i := b.ending.closeEnd) (by omega) (by omega)
    rw [hinline, if_pos rfl] at hstop
    rw [reach, bottomLine, hinline, hstop]
    rcases hbound.lt_or_eq with hlt | heq
    · -- no line feed stands behind the end marker
      have hmono := Text.count_take_mono t (show b.ending.closeEnd ≤ t.length - 1 by omega)
      have hnone : t[t.length - 1]? ≠ some newline := fun h => by
        rw [if_pos h] at hend
        omega
      rw [if_neg hnone]
      by_cases hfeed : t[b.ending.closeEnd - 1]? = some newline
      · rw [if_pos hfeed] at hclose
        rw [if_pos ⟨rfl, hfeed, hlt⟩]
        omega
      · rw [if_neg hfeed] at hclose
        rw [if_neg fun h => hfeed h.2.1]
        omega
    · rw [if_neg fun h => absurd h.2.2 (by omega), heq]
      split at hend <;> simp_all
  | false =>
    rw [hinline, if_neg Bool.false_ne_true, hline] at hstop
    rw [reach, bottomLine, hinline, hstop, if_neg fun h => Bool.false_ne_true h.1]
    split at hend <;> simp_all

/-- **A block reaches up to the end of a line**, which is ended by a line feed or by the end of the text. -/
theorem Stands.reach_cases (hs : Document.Usable s) (hb : b.Stands s t) :
    (∃ front y, t = terminated front ++ y ∧ (∀ l ∈ front, newline ∉ l) ∧
      Text.lineStop t b.ending.closeEnd = (terminated front).length ∧ front.length = b.reach t ∧
      b.topLine t < front.length) ∨
    (∃ front line, t = terminated front ++ line ∧ (∀ l ∈ front, newline ∉ l) ∧ newline ∉ line ∧ line ≠ [] ∧
      Text.lineStop t b.ending.closeEnd = t.length ∧ front.length + 1 = b.reach t ∧
      b.topLine t ≤ front.length) := by
  have hopen := hb.openAt_lt_closeEnd hs
  have hbound := hb.ending.bound
  have htop := Text.count_take_mono t hopen.le
  rw [← hb.topLine_eq] at htop
  rcases Text.lineStop_cases hbound with ⟨front, y, ht, hfront, hline, hcount, hlt⟩ | ⟨hline, hcount⟩
  · left
    have hne : front ≠ [] := fun h => by simp [h] at hcount
    have htake : t.take (Text.lineStop t b.ending.closeEnd) = terminated front := by
      rw [hline]
      conv_lhs => rw [ht, List.take_left]
    have hlast : t[Text.lineStop t b.ending.closeEnd - 1]? = some newline := by
      rw [← List.getElem?_take_of_lt (Nat.sub_lt (Nat.zero_lt_of_lt hlt) Nat.zero_lt_one), htake, hline,
        ← List.getLast?_eq_getElem?, Text.getLast?_terminated hne]
    have hreach := hb.reach_of_lt hs hlt (by rw [htake, Text.count_terminated hfront, hcount]) hlast
    exact ⟨front, y, ht, hfront, hline, by omega, by omega⟩
  · obtain ⟨front, hu, hfront, hfrontCount⟩ := Text.exists_terminated_lastLine t
    have hno := Text.newline_notMem_lastLine t
    have hreach := hb.reach_of_end hs hline hcount
    rw [← List.getLast?_eq_getElem?] at hreach
    by_cases hempty : Text.lastLine t = []
    · left
      rw [hempty, List.append_nil] at hu
      have hne : front ≠ [] := fun h => by
        rw [h, Text.terminated_nil] at hu
        simp [hu] at hbound
        omega
      have hlast : t.getLast? = some newline := hu ▸ Text.getLast?_terminated hne
      rw [if_pos hlast] at hreach
      -- the last line feed stands behind the opener
      have hpred := Text.count_take_pred (t := t) (i := t.length) (by omega) le_rfl
      rw [List.take_length, ← List.getLast?_eq_getElem?, if_pos hlast] at hpred
      have hmono := Text.count_take_mono t (show b.opening.openAt ≤ t.length - 1 by omega)
      rw [← hb.topLine_eq] at hmono
      exact ⟨front, [], by rw [List.append_nil]; exact hu, hfront, by rw [hline, ← hu], by omega, by omega⟩
    · right
      have hlast : t.getLast? ≠ some newline := by
        rw [hu, List.getLast?_append_of_ne_nil _ hempty]
        exact fun h => hno (List.mem_of_getLast? h)
      rw [if_neg hlast] at hreach
      exact ⟨front, Text.lastLine t, hu, hfront, hno, hempty, hline, by omega, by omega⟩

/-- A block is written on lines of the text. -/
theorem Stands.reach_le (hs : Document.Usable s) (hb : b.Stands s t) :
    b.topLine t < b.reach t ∧ b.reach t ≤ (writtenLines t).length := by
  rcases hb.reach_cases hs with ⟨front, y, ht, hfront, -, hreach, htop⟩ |
    ⟨front, line, ht, hfront, hline, hne, -, hreach, htop⟩
  · have hlength := congrArg (fun t => (writtenLines t).length) ht
    simp only [Text.writtenLines_terminated_append hfront, List.length_append] at hlength
    omega
  · have hlength := congrArg (fun t => (writtenLines t).length) ht
    have hpos : 0 < (writtenLines line).length :=
      (List.getElem?_eq_some_iff.1 (Text.head?_writtenLines hne (Text.lines_of_notMem hline))).1
    simp only [Text.writtenLines_terminated_append hfront, List.length_append] at hlength
    omega

/-- **The snippet of a block, in lines.** -/
theorem Stands.snippet_lines (hs : Document.Usable s) (hb : b.Stands s t) (before after : Nat) :
    b.snippet t before after = ofLines (((writtenLines t).take
      (contextStop (writtenLines t) (b.reach t) after)).drop (b.topLine t - before)) := by
  have hbound := hb.opening.bound
  have hwidth := hb.opening.width
  have hstart := Text.lineStart_eq (t.take b.opening.openAt) (t.drop b.opening.openAt)
  rw [List.take_append_drop, List.length_take, min_eq_left (by omega), ← hb.topLine_eq] at hstart
  rw [hb.snippet_eq_trimmed, hstart]
  rcases hb.reach_cases hs with ⟨front, y, rfl, hfront, hstop, hreach, htop⟩ |
    ⟨front, line, rfl, hfront, hline, hne, hstop, hreach, htop⟩
  · rw [hstop, ← hreach, Text.lines_terminated_append hfront, List.take_append_of_le_length htop.le]
    exact trimmed_widened hfront htop y before after
  · rw [hstop, ← hreach, Text.lines_terminated_append hfront, List.take_append_of_le_length htop]
    exact trimmed_unended hfront htop hline hne before after

end Block

/-- Lines are told by their text. -/
theorem Text.ofLines_inj {ls ms : List Text} (hls : ∀ l ∈ ls, newline ∉ l) (hms : ∀ l ∈ ms, newline ∉ l)
    (hls' : ls ≠ []) (hms' : ms ≠ []) : ofLines ls = ofLines ms ↔ ls = ms := by
  refine ⟨fun h => ?_, congrArg ofLines⟩
  rw [← Text.lines_ofLines hls hls', h, Text.lines_ofLines hms hms']

theorem Text.newline_notMem_of_mem_writtenLines {t l : Text} (h : l ∈ Text.writtenLines t) : newline ∉ l := by
  refine Text.newline_notMem_of_mem_lines (t := t) ?_
  rcases Text.lines_eq_writtenLines t with ⟨hl, -⟩ | hl
  · rwa [hl]
  · rw [hl]
    exact List.mem_append_left _ h

/-- **When as many lines are shown as were asked for**: no step is made, or the steps come to the end of the text, or
the line in front of which they begin is blank exactly if the one with which they end is. -/
theorem Block.contextStop_eq_iff {ls : List Text} {reach : Nat} (hreach : reach ≤ ls.length) (after : Nat) :
    contextStop ls reach after = min (reach + after) ls.length ↔
      after = 0 ∨ ls.length ≤ contextLine ls reach after ∨
        (ls[reach]? = some [] ↔ ls[contextLine ls reach after]? = some []) := by
  by_cases hafter : after = 0
  · simp [contextStop, hafter, hreach]
  · have hline : contextLine ls reach after
        = if ls[reach]? = some [] then reach + after else reach + after - 1 := rfl
    rw [contextStop, if_neg hafter]
    by_cases hend : ls.length ≤ contextLine ls reach after
    · have hle : ls.length ≤ reach + after := by
        split at hline <;> omega
      simp [hend, hle]
    · have hle : reach + after ≤ ls.length := by
        split at hline <;> omega
      rw [if_neg hend, min_eq_left hle]
      by_cases hfirst : ls[reach]? = some []
      · -- the steps end one line further on, so the last one has to be left out
        rw [if_pos hfirst] at hline
        simp only [hafter, hend, hfirst, false_or, true_iff]
        split <;> simp_all
      · rw [if_neg hfirst] at hline
        simp only [hafter, hend, hfirst, false_or, false_iff]
        split <;> simp_all <;> omega

/-- At least the lines of the block are shown. -/
theorem Block.contextStop_bounds {ls : List Text} {reach : Nat} (hreach : reach ≤ ls.length) (after : Nat) :
    reach ≤ contextStop ls reach after ∧ contextStop ls reach after ≤ ls.length := by
  by_cases hafter : after = 0
  · simp [contextStop, hafter, hreach]
  · have hline : reach ≤ contextLine ls reach after := by
      unfold contextLine
      split <;> omega
    rw [contextStop, if_neg hafter]
    split
    · exact ⟨hreach, le_rfl⟩
    · split <;> omega

open Text (writtenLines) in
open Block (contextStop contextLine) in
/-- **The lines of a snippet.** Shown are the lines from the one on which the span of the open marker starts up to
the one that holds the last character of the span of the end marker, with the lines in front that are asked for as far
as there are any. Behind, the lines that are asked for are shown just if it is the end of the text that stops them,
or the first line behind the block and the line at which the steps end are both blank, or neither is. If only the
first is blank, one line too many is shown, and if only the last is, one too few. One more line is shown in any case if
the closer of an inline block ends with a line feed and more of the text follows it. -/
theorem Document.snippet_eq {s : Settings} {t : Text} {d : Document} (hd : parse s t = .ok d) {b : Block}
    (hb : b ∈ d.blocks) (before after : Nat) :
    b.snippet t before after = ofLines (((writtenLines t).take
        (contextStop (writtenLines t) (b.reach t) after)).drop (b.topLine t - before)) ∧
      (b.reach t = b.bottomLine t + 1 →
        (b.snippet t before after = ofLines (((writtenLines t).take (b.bottomLine t + 1 + after)).drop
            (b.topLine t - before)) ↔
          after = 0 ∨ (writtenLines t).length ≤ contextLine (writtenLines t) (b.reach t) after ∨
            ((writtenLines t)[b.reach t]? = some [] ↔
              (writtenLines t)[contextLine (writtenLines t) (b.reach t) after]? = some []))) := by
  have hstands := stands_of_mem_blocks hd b hb
  have hs := (parse_eq_ok_iff.1 hd).1
  obtain ⟨htop, hreach⟩ := hstands.reach_le hs
  have hsnippet := hstands.snippet_lines hs before after
  refine ⟨hsnippet, fun hbottom => ?_⟩
  have hstop := Block.contextStop_bounds hreach after
  have hshown : ∀ stop, b.reach t ≤ stop → (∀ l ∈ ((writtenLines t).take stop).drop (b.topLine t - before),
      newline ∉ l) ∧ ((writtenLines t).take stop).drop (b.topLine t - before) ≠ [] := by
    intro stop hle
    refine ⟨fun l hl => Text.newline_notMem_of_mem_writtenLines (List.mem_of_mem_take (List.mem_of_mem_drop hl)), ?_⟩
    rw [ne_eq, List.drop_eq_nil_iff, List.length_take]
    omega
  rw [← Block.contextStop_eq_iff hreach, hsnippet, ← hbottom,
    Text.ofLines_inj (hshown _ hstop.1).1 (hshown _ (by omega)).1 (hshown _ hstop.1).2 (hshown _ (by omega)).2]
  constructor
  · intro h
    have hlength := congrArg List.length h
    simp only [List.length_drop, List.length_take] at hlength
    omega
  · intro h
    rw [h, ← List.take_eq_take_min]

/-- A block between a line of text and a blank line, behind which there is another one. -/
def Document.gappedText : Text := "x\n[[[ a ]]]\n[[[ end ]]]\n\ny\nz\n"

/-- With one line on either side, the block of that text is shown with two lines behind it, the first of which is
blank. -/
theorem Document.snippet_eq_gapped : ∃ d, ∃ b ∈ d.blocks, parse .standard gappedText = .ok d ∧
    b.snippet gappedText 1 1 = ofLines (((Text.writtenLines gappedText).take
      (Block.contextStop (Text.writtenLines gappedText) (b.reach gappedText) 1)).drop
        (b.topLine gappedText - 1)) ∧
    b.snippet gappedText 1 1 = Text.ofString "x\n[[[ a ]]]\n[[[ end ]]]\n\ny" := by
  obtain ⟨d, hd, b, hb, hshown⟩ : ∃ d, parse .standard gappedText = .ok d ∧ ∃ b ∈ d.blocks,
      ofLines (((Text.writtenLines gappedText).take
        (Block.contextStop (Text.writtenLines gappedText) (b.reach gappedText) 1)).drop (b.topLine gappedText - 1))
          = Text.ofString "x\n[[[ a ]]]\n[[[ end ]]]\n\ny" := ⟨_, rfl, by decide +kernel⟩
  obtain ⟨hsnippet, -⟩ := snippet_eq hd hb 1 1
  exact ⟨d, b, hb, hd, hsnippet, hsnippet.trans hshown⟩

/-- **A snippet may have other lines than were asked for**: behind the block of that text one line is asked for, and
two are shown. -/
theorem Document.not_snippet_eq : ¬ ∀ (s : Settings) (t : Text) (d : Document), parse s t = .ok d →
    ∀ b ∈ d.blocks, ∀ before after : Nat, b.snippet t before after
      = ofLines (((Text.writtenLines t).take (b.bottomLine t + 1 + after)).drop (b.topLine t - before)) := by
  obtain ⟨d, hd, b, hb, hne⟩ : ∃ d, parse .standard gappedText = .ok d ∧ ∃ b ∈ d.blocks,
      b.snippet gappedText 0 1 ≠ ofLines (((Text.writtenLines gappedText).take
        (b.bottomLine gappedText + 1 + 1)).drop (b.topLine gappedText - 0)) := ⟨_, rfl, by decide +kernel⟩
  exact fun h => hne (h _ _ d hd b hb 0 1)

end Regen
