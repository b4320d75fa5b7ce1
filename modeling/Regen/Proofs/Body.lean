import Regen.Block
import Regen.Proofs.Arrangement
import Regen.Proofs.Lines

/-!
# What stands between two markers

The text between the markers of a block falls into three parts. The *front* is written back with
the open marker and the *back* with the end marker, and the *region* between them is written anew.
An inline region begins with the first space and ends with the last one, or is all there is if
there is no space; a region of whole lines begins behind the first line feed and ends behind the
last one (`Parted`).

The parts alone determine the spans and the body of the block, so a block that is given a new region
between its old front and back has its spans and its body again where they are expected.
-/

namespace Regen

open Text (space newline)

/-- **The parts of the text between the markers of a block**, with the body that they make. -/
inductive Parted : (isInline : Bool) → (front region back body : Text) → Prop
  /-- An inline body without a space. -/
  | bare {body : Text} (hbody : space ∉ body) : Parted true [] body [] body
  /-- An inline body of one space. -/
  | single {front back : Text} (hfront : space ∉ front) (hback : space ∉ back) :
      Parted true front [space] back []
  /-- An inline body with padding on either side. -/
  | padded {front body back : Text} (hfront : space ∉ front) (hback : space ∉ back) :
      Parted true front (space :: (body ++ [space])) back body
  /-- No whole line. -/
  | empty {front back : Text} (hfront : newline ∉ front) (hback : newline ∉ back) :
      Parted false (front ++ [newline]) [] back []
  /-- Whole lines. -/
  | lines {front body back : Text} (hfront : newline ∉ front) (hback : newline ∉ back) :
      Parted false (front ++ [newline]) (body ++ [newline]) back body

/-- **Every text between markers has parts**, if a line ends in it where the block takes whole
lines. -/
theorem exists_parted (isInline : Bool) {w : Text} (h : isInline = false → newline ∈ w) :
    ∃ front region back body, w = front ++ region ++ back ∧
      Parted isInline front region back body := by
  cases isInline with
  | true =>
    by_cases hspace : space ∈ w
    · obtain ⟨front, rest, rfl, hfront⟩ := List.eq_append_cons_of_mem hspace
      by_cases hrest : space ∈ rest
      · obtain ⟨i, hi⟩ := Option.ne_none_iff_exists'.1 (mt Text.lastIdxOf?_eq_none.1 (not_not.2 hrest))
        obtain ⟨body, back, rfl, -, hback⟩ := Text.lastIdxOf?_eq_some.1 hi
        exact ⟨front, space :: (body ++ [space]), back, body, by simp, .padded hfront hback⟩
      · exact ⟨front, [space], rest, [], by simp, .single hfront hrest⟩
    · exact ⟨[], w, [], w, by simp, .bare hspace⟩
  | false =>
    obtain ⟨front, rest, rfl, hfront⟩ := List.eq_append_cons_of_mem (h rfl)
    by_cases hrest : newline ∈ rest
    · obtain ⟨i, hi⟩ := Option.ne_none_iff_exists'.1 (mt Text.lastIdxOf?_eq_none.1 (not_not.2 hrest))
      obtain ⟨body, back, rfl, -, hback⟩ := Text.lastIdxOf?_eq_some.1 hi
      exact ⟨front ++ [newline], body ++ [newline], back, body, by simp, .lines hfront hback⟩
    · exact ⟨front ++ [newline], [], rest, [], by simp, .empty hfront hrest⟩

/-- A block stands around the given parts, which begin behind `pre`. -/
structure Block.Encases (b : Block) (pre front region back body : Text) : Prop where
  /-- The span of the open marker ends with the front. -/
  openStop : b.openSpan.stop = (pre ++ front).length
  /-- The span of the end marker begins with the back. -/
  endStart : b.endSpan.start = (pre ++ front ++ region).length
  /-- The body is what the parts make it. -/
  body : b.body = body

/-- An inline body without spaces is kept whole. -/
theorem Block.inlineOf_of_notMem {pre w : Text} (post : Text) {opening ending : Marker} (depth : Nat)
    (hw : space ∉ w) (hopening : opening.closeEnd = pre.length)
    (hending : ending.openAt = (pre ++ w).length) :
    (inlineOf (pre ++ w ++ post) opening ending depth).Encases pre [] w [] w := by
  have hfirst := Text.byteIn?_append space pre w post
  rw [← List.length_append, ← hopening, ← hending, List.idxOf?_eq_none_iff.2 hw] at hfirst
  unfold inlineOf
  rw [hfirst]
  refine ⟨by simp [hopening], by simp [hending], ?_⟩
  rw [hopening, hending, List.length_append]
  exact Text.extract_append pre w post

/-- An inline body with spaces lies between the first of them and the last. -/
theorem Block.inlineOf_of_mem {pre front rest : Text} (post : Text) {opening ending : Marker}
    (depth : Nat) {i : Nat}
    (hfront : space ∉ front) (hlast : Text.lastIdxOf? space (space :: rest) = some i)
    (hopening : opening.closeEnd = pre.length)
    (hending : ending.openAt = (pre ++ (front ++ space :: rest)).length) :
    let b := inlineOf (pre ++ (front ++ space :: rest) ++ post) opening ending depth
    b.openSpan.stop = (pre ++ front).length ∧ b.endSpan.start = (pre ++ front).length + (i + 1) ∧
      b.body = (space :: rest).extract 1 i := by
  have hfirst := Text.byteIn?_append space pre (front ++ space :: rest) post
  rw [← List.length_append, ← hopening, ← hending,
    Text.idxOf?_eq_some.2 ⟨front, rest, rfl, rfl, hfront⟩] at hfirst
  have hsecond := Text.lastByteIn?_append space (pre ++ front) (space :: rest) post
  rw [hlast, show pre ++ front ++ space :: rest ++ post = pre ++ (front ++ space :: rest) ++ post by
    simp, show (pre ++ front).length + (space :: rest).length = ending.openAt by
    rw [hending]; simp [Nat.add_assoc], Option.map_some] at hsecond
  have hstart : front.length + opening.closeEnd = (pre ++ front).length := by
    simp [hopening, Nat.add_comm]
  rw [Option.map_some, hstart] at hfirst
  have hle : i ≤ rest.length := by
    obtain ⟨x, z, hxz, rfl, -⟩ := Text.lastIdxOf?_eq_some.1 hlast
    have hlen := congrArg List.length hxz
    simp at hlen
    omega
  have hbody : (pre ++ (front ++ space :: rest) ++ post).extract ((pre ++ front).length + 1)
      (i + (pre ++ front).length) = (space :: rest).extract 1 i := by
    rw [show pre ++ (front ++ space :: rest) ++ post = (pre ++ front ++ [space]) ++ (rest ++ post) by
      simp, List.extract_eq_take_drop, List.extract_eq_take_drop,
      show (pre ++ front).length + 1 = (pre ++ front ++ [space]).length by simp; omega,
      List.drop_left, List.drop_succ_cons, List.drop_zero,
      show i + (pre ++ front).length - (pre ++ front ++ [space]).length = i - 1 by simp; omega,
      List.take_append_of_le_length (by omega)]
  unfold inlineOf
  rw [hfirst]
  dsimp only
  rw [hsecond]
  exact ⟨rfl, by dsimp only; omega, hbody⟩

/-- A body of whole lines lies between the first line feed and the last. -/
theorem Block.linesOf_of_mem {pre front rest body back : Text} (post : Text)
    {opening ending : Marker} (depth : Nat) (hfront : newline ∉ front) (hback : newline ∉ back)
    (hrest : front ++ newline :: rest = body ++ newline :: back)
    (hopening : opening.closeEnd = pre.length)
    (hending : ending.openAt = (pre ++ (front ++ newline :: rest)).length)
    (hlead : ending.lead = Text.lastLine (pre ++ (front ++ newline :: rest))) :
    let b := linesOf (pre ++ (front ++ newline :: rest) ++ post) opening ending depth
    b.openSpan.stop = (pre ++ front ++ [newline]).length ∧
      b.endSpan.start = (pre ++ body ++ [newline]).length ∧
      b.body = if front.length < body.length
        then (body.drop (front.length + 1)) else [] := by
  have hstart := Text.lineStop_append_newline pre (rest ++ post) hfront
  have hlast := Text.lastByteIn?_append newline pre (front ++ newline :: rest) post
  rw [← List.length_append, ← hopening, ← hending,
    Text.lastIdxOf?_eq_some.2 ⟨body, back, hrest, rfl, hback⟩] at hlast
  have hbodyStart : Text.lineStop (pre ++ (front ++ newline :: rest) ++ post) opening.closeEnd
      = (pre ++ front).length + 1 := by
    rw [← hstart, hopening]
    simp
  have hlineStart : ending.lineStart = (pre ++ body ++ [newline]).length := by
    rw [Marker.lineStart, hlead, hending, hrest, ← List.append_assoc,
      Text.lastLine_append_newline _ hback]
    simp
    omega
  have hbody : front.length < body.length →
      (pre ++ (front ++ newline :: rest) ++ post).extract ((pre ++ front).length + 1)
        (body.length + opening.closeEnd + 1 - 1) = body.drop (front.length + 1) := by
    intro hlt
    rw [hrest, hopening, List.extract_eq_take_drop, List.append_assoc,
      show (pre ++ front).length + 1 = pre.length + (front.length + 1) by simp; omega,
      ← List.drop_drop, List.drop_left, List.append_assoc, List.drop_append_of_le_length (by omega),
      List.take_append_of_le_length (by simp; omega), List.take_of_length_le (by simp; omega)]
  intro b
  refine ⟨hbodyStart.trans (by simp; omega), hlineStart, ?_⟩
  show (linesOf _ opening ending depth).body = _
  simp only [linesOf, hlast, hbodyStart, Option.map_some]
  by_cases hlt : front.length < body.length
  · rw [if_pos hlt, if_pos (by simp; omega), hbody hlt]
  · rw [if_neg hlt, if_neg (by simp; omega)]

/-- **The spans and the body of a block follow from the parts** of the text between its markers. -/
theorem Parted.encases {isInline : Bool} {front region back body pre : Text}
    (h : Parted isInline front region back body) (post : Text) {opening ending : Marker} (depth : Nat)
    (hopening : opening.closeEnd = pre.length)
    (hending : ending.openAt = (pre ++ (front ++ region ++ back)).length)
    (hlead : ending.lead = Text.lastLine (pre ++ (front ++ region ++ back))) :
    (Block.ofMarkers (pre ++ (front ++ region ++ back) ++ post) opening ending depth
      isInline).Encases pre front region back body := by
  cases h with
  | bare hbody =>
    have hparts := Block.inlineOf_of_notMem post depth hbody hopening
      (by simpa using hending)
    simpa [Block.ofMarkers] using hparts
  | @single front back hfront hback =>
    obtain ⟨hopen, hend, hbody⟩ := Block.inlineOf_of_mem post depth hfront
      (Text.lastIdxOf?_eq_some.2 ⟨[], back, rfl, rfl, hback⟩) hopening (by simpa using hending)
    rw [← List.append_cons]
    refine ⟨hopen, hend.trans (by simp; omega), hbody⟩
  | @padded front body back hfront hback =>
    obtain ⟨hopen, hend, hbody⟩ := Block.inlineOf_of_mem post depth hfront
      (Text.lastIdxOf?_eq_some.2 ⟨space :: body, back, rfl, rfl, hback⟩) hopening
      (by simpa using hending)
    rw [show front ++ space :: (body ++ [space]) ++ back = front ++ space :: (body ++ space :: back)
      by simp]
    refine ⟨hopen, hend.trans (by simp; omega), hbody.trans ?_⟩
    rw [List.extract_eq_take_drop]
    simp
  | @empty front back hfront hback =>
    obtain ⟨hopen, hend, hbody⟩ := Block.linesOf_of_mem post depth hfront hback
      rfl hopening (by simpa using hending) (by simpa using hlead)
    rw [if_neg (lt_irrefl _)] at hbody
    rw [show front ++ [newline] ++ [] ++ back = front ++ newline :: back by simp]
    exact ⟨hopen.trans (by simp), hend.trans (by simp), hbody⟩
  | @lines front body back hfront hback =>
    obtain ⟨hopen, hend, hbody⟩ := Block.linesOf_of_mem post depth hfront hback
      (show front ++ newline :: (body ++ newline :: back)
        = (front ++ newline :: body) ++ newline :: back by simp)
      hopening (by simpa using hending) (by simpa using hlead)
    rw [if_pos (by simp)] at hbody
    rw [show front ++ [newline] ++ (body ++ [newline]) ++ back
      = front ++ newline :: (body ++ newline :: back) by simp]
    exact ⟨hopen.trans (by simp), hend.trans (by simp), hbody.trans (by simp)⟩

end Regen
