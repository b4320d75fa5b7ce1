import Regen.Proofs.Families

/-!
# Markers and the markers they are paired with

A document lists its markers in the order of their openers, and each of them knows its block. Seen from
the list alone, a block is a pair of places in it: that of its open marker and that of its end marker
(`Document.partner?`). This module says what such pairs can look like, in terms of the places and of the
markers there only: **every marker has a partner, the pairs are properly nested, and no edit stands
directly inside an edit** (`Document.properlyNested_of_parse`).

Places are compared by way of the openers. Markers of a document stand one behind the other, so what lies
between two places of the list lies between the two openers as well, and the marks that a block holds are
exactly those between its own (`Block.Holds.mem_iff`).
-/

namespace Regen

/-! ## Partners -/

/-- The other mark of the same block. -/
def Mark.partner : Mark → Mark
  | opening b => ending b
  | ending b => opening b

/-- The place of the marker that the marker at a place is paired with. -/
def Mark.partner? (marks : List Mark) (i : Nat) : Option Nat :=
  marks[i]?.bind fun m => marks.idxOf? m.partner

/-- The place of the marker that a marker of the document is paired with, both given by their places
among all markers. -/
def Document.partner? (d : Document) (i : Nat) : Option Nat := Mark.partner? d.marks i

/-- **The marker at a place stands around the one at another**, which is behind it and in front of its
partner. -/
def StandsAround (partner? : Nat → Option Nat) (i k : Nat) : Prop :=
  ∃ j, partner? i = some j ∧ i < k ∧ k < j

/-- **Properly nested markers**, given the place of the partner of each. -/
structure ProperlyNested (markers : List Marker) (partner? : Nat → Option Nat) : Prop where
  /-- The markers are listed in the order of their openers. -/
  ordered : markers.Pairwise (·.openAt < ·.openAt)
  /-- Every marker has a partner. -/
  isSome_iff (i : Nat) : (partner? i).isSome ↔ i < markers.length
  /-- The partner of a partner is the marker itself. -/
  involutive {i j : Nat} : partner? i = some j → partner? j = some i
  /-- No marker is its own partner. -/
  ne {i j : Nat} : partner? i = some j → i ≠ j
  /-- An open marker is paired with a marker behind it, and an end marker with one in front of it. -/
  lt_iff {i j : Nat} {m : Marker} : partner? i = some j → markers[i]? = some m →
    (i < j ↔ m.isEnd = false)
  /-- What stands between two partners is paired with what stands between them. -/
  uncrossed {i j k l : Nat} : partner? i = some j → partner? k = some l → i < k → k < j →
    i < l ∧ l < j
  /-- The innermost marker around an open edit marker is not one of an edit. -/
  edits_apart {i k : Nat} {m n : Marker} : markers[i]? = some m → markers[k]? = some n →
    StandsAround partner? i k → (∀ i', StandsAround partner? i' k → i' ≤ i) → n.isEnd = false →
    ¬ (m.family = .edit ∧ n.family = .edit)

namespace Mark

variable {marks : List Mark}

@[simp] theorem partner_partner (m : Mark) : m.partner.partner = m := by cases m <;> rfl

theorem partner_ne (m : Mark) : m.partner ≠ m := by cases m <;> simp [partner]

/-- The openers of marks that stand one behind the other. -/
def Sorted (marks : List Mark) : Prop := marks.Pairwise (·.marker.openAt < ·.marker.openAt)

/-- **Places are in the order of the openers.** -/
theorem Sorted.lt_iff (h : Sorted marks) {i j : Nat} {m n : Mark} (hm : marks[i]? = some m)
    (hn : marks[j]? = some n) : i < j ↔ m.marker.openAt < n.marker.openAt := by
  obtain ⟨hi, rfl⟩ := List.getElem?_eq_some_iff.1 hm
  obtain ⟨hj, rfl⟩ := List.getElem?_eq_some_iff.1 hn
  have hlt := List.pairwise_iff_getElem.1 h
  constructor
  · exact hlt i j hi hj
  · intro hopen
    by_contra hle
    rcases Nat.lt_or_eq_of_le (Nat.le_of_not_lt hle) with hji | rfl
    · exact absurd (hlt j i hj hi hji) (Nat.lt_asymm hopen)
    · exact absurd hopen (Nat.lt_irrefl _)

/-- **The partner of a marker** is at the place where the other mark of its block is. -/
theorem Sorted.partner?_eq_some_iff (h : Sorted marks) {i j : Nat} :
    partner? marks i = some j ↔ ∃ m, marks[i]? = some m ∧ marks[j]? = some m.partner := by
  have hidx : ∀ m, marks.idxOf? m = some j ↔ marks[j]? = some m := by
    intro m
    rw [List.idxOf?, List.findIdx?_eq_some_iff_getElem, List.getElem?_eq_some_iff]
    refine exists_congr fun hj => ?_
    rw [beq_iff_eq]
    refine and_iff_left_of_imp fun hm k hk heq => ?_
    have hlt := List.pairwise_iff_getElem.1 h k j (hk.trans hj) hj hk
    rw [beq_iff_eq.1 heq, ← hm] at hlt
    exact Nat.lt_irrefl _ hlt
  unfold partner?
  simp only [Option.bind_eq_some_iff, hidx]

end Mark

/-! ## What a block holds -/

section

variable {t : Text} {depth : Nat} {b : Block} {marks inner : List Mark}

/-- The other mark of a block is among nested marks if one of them is. -/
theorem Nested.partner_mem (h : Nested t depth marks) {m : Mark} (hm : m ∈ marks) :
    m.partner ∈ marks := by
  have hpairs := h.of_block (R := fun _ _ => True) (List.pairwise_of_forall fun _ _ => trivial)
  cases m with
  | opening b => exact (hpairs b (List.mem_filterMap.2 ⟨_, hm, rfl⟩)).1
  | ending b => exact Mark.opening_mem_of_mem_blocks (h.mem_blocks_of_ending hm)

/-- **A block holds the marks that stand between its own.** -/
theorem Block.Holds.mem_iff (h : b.Holds marks inner) (hsorted : Mark.Sorted marks) {m : Mark}
    (hm : m ∈ marks) : m ∈ inner ↔
      b.opening.openAt < m.marker.openAt ∧ m.marker.openAt < b.ending.openAt := by
  obtain ⟨front, back, rfl⟩ := h
  rw [Mark.Sorted, List.append_assoc, List.pairwise_append] at hsorted
  obtain ⟨-, hblock, hfront⟩ := hsorted
  rw [List.cons_append, List.append_assoc, List.pairwise_cons, List.pairwise_append,
    List.singleton_append, List.pairwise_cons] at hblock
  obtain ⟨hopening, -, ⟨hending, -⟩, hinner⟩ := hblock
  constructor
  · intro hm
    exact ⟨hopening m (by simp [hm]), hinner m hm (.ending b) (by simp)⟩
  · rintro ⟨hafter, hbefore⟩
    -- in front of the block and behind it the openers are on the other side of its own
    have hcases : m ∈ front ∨ m = .opening b ∨ m ∈ inner ∨ m = .ending b ∨ m ∈ back := by
      simpa [or_assoc] using hm
    rcases hcases with hm | rfl | hm | rfl | hm
    · exact absurd (hfront m hm (.opening b) (by simp)) (Nat.lt_asymm hafter)
    · exact absurd hafter (Nat.lt_irrefl _)
    · exact hm
    · exact absurd hbefore (Nat.lt_irrefl _)
    · exact absurd (hending m hm) (Nat.lt_asymm hbefore)

/-- **A block inside another one is directly in it, or held by one in between.** If it is directly in
it, it is not an edit in an edit. -/
theorem Inside.direct_or_exists {family : Family} {isInline : Bool} {p q : Marker}
    (h : Inside t family isInline depth p marks q) :
    ∀ c ∈ Mark.blocks marks, ¬ (c.family = .edit ∧ family = .edit) ∨
      ∃ a ∈ Mark.blocks marks, ∃ held, a.Holds marks held ∧ .opening c ∈ held := by
  induction h with
  | nil => simp
  | @block _ _ _ _ _ _ b inner rest _ _ _ _ _ hedit hinner _ _ hrest ihInner ihRest =>
    intro c hc
    simp only [Mark.blocks_opening, Mark.blocks_append, Mark.blocks_ending, List.mem_cons,
      List.mem_append] at hc
    rcases hc with rfl | hc | hc
    · exact .inl hedit
    · exact .inr ⟨b, by simp, inner, b.holds_cons inner rest, Mark.opening_mem_of_mem_blocks hc⟩
    · rcases ihRest c hc with hdirect | ⟨a, ha, held, hholds, hmem⟩
      · exact .inl hdirect
      · exact .inr ⟨a, by simp [ha], held, hholds.of_rest, hmem⟩

/-- An end mark has an end marker if open markers are those of open marks. -/
theorem Mark.isEnd_of_iff {b : Block}
    (h : (Mark.ending b).marker.isEnd = false ↔ ∃ c, Mark.ending b = .opening c) : b.ending.isEnd = true := by
  rw [← Bool.not_eq_false]
  intro hopens
  obtain ⟨c, hc⟩ := h.1 hopens
  cases hc

/-- **Open marks have open markers**, and end marks have end markers. -/
theorem Outermost.isEnd_eq_false_iff {previous? : Option Block} (h : Outermost t previous? marks) {m : Mark}
    (hm : m ∈ marks) : m.marker.isEnd = false ↔ ∃ b, m = .opening b := by
  cases m with
  | opening b =>
    obtain ⟨depth, inner, henclosed, -⟩ := h.exists_holds b (List.mem_filterMap.2 ⟨_, hm, rfl⟩)
    simp [Mark.marker, henclosed.opens]
  | ending b =>
    obtain ⟨depth, inner, henclosed, -⟩ := h.exists_holds b (h.nested.mem_blocks_of_ending hm)
    simp [Mark.marker, henclosed.ends]

end

/-! ## Documents -/

namespace Document

variable {s : Settings} {t : Text} {d : Document}

/-- The marks of a document are in the order of their openers. -/
theorem sorted_marks (hd : parse s t = .ok d) : Mark.Sorted d.marks := by
  obtain ⟨hbefore, hstands⟩ := pairwise_before hd
  have husable := usable_of_parse hd
  exact hbefore.imp_of_mem fun {m n} hm _ h => ((hstands m hm).openAt_lt husable).trans_le h.ordered

/-- Open marks have open markers, and end marks have end markers. -/
theorem isEnd_of_mem_marks (hd : parse s t = .ok d) {m : Mark} (hm : m ∈ d.marks) :
    m.marker.isEnd = false ↔ ∃ b, m = .opening b := by
  have houter := outermost_of_parse hd
  exact houter.isEnd_eq_false_iff hm

/-- **The partner of a marker of a document** is at the place of the other mark of its block. -/
theorem partner?_eq_some_iff (hd : parse s t = .ok d) {i j : Nat} :
    d.partner? i = some j ↔ ∃ m, d.marks[i]? = some m ∧ d.marks[j]? = some m.partner :=
  (sorted_marks hd).partner?_eq_some_iff

/-- Every marker of a document has a partner. -/
theorem isSome_partner?_iff (hd : parse s t = .ok d) (i : Nat) :
    (d.partner? i).isSome ↔ i < d.marks.length := by
  have houter := outermost_of_parse hd
  rw [Option.isSome_iff_exists]
  constructor
  · rintro ⟨j, hj⟩
    obtain ⟨m, hm, -⟩ := (partner?_eq_some_iff hd).1 hj
    exact (List.getElem?_eq_some_iff.1 hm).1
  · intro hi
    have hmem := houter.nested.partner_mem (List.getElem_mem hi)
    obtain ⟨j, hj⟩ := List.mem_iff_getElem?.1 hmem
    exact ⟨j, (partner?_eq_some_iff hd).2 ⟨_, List.getElem?_eq_getElem hi, hj⟩⟩

/-- The partner of a partner is the marker itself. -/
theorem partner?_involutive (hd : parse s t = .ok d) {i j : Nat} (h : d.partner? i = some j) :
    d.partner? j = some i := by
  obtain ⟨m, hm, hj⟩ := (partner?_eq_some_iff hd).1 h
  exact (partner?_eq_some_iff hd).2 ⟨m.partner, hj, by rwa [Mark.partner_partner]⟩

/-- No marker is its own partner. -/
theorem partner?_ne (hd : parse s t = .ok d) {i j : Nat} (h : d.partner? i = some j) : i ≠ j := by
  obtain ⟨m, hm, hj⟩ := (partner?_eq_some_iff hd).1 h
  rintro rfl
  exact m.partner_ne (Option.some.inj (hj.symm.trans hm))

/-- Open markers are in front of their partners, and end markers behind them. -/
theorem lt_partner_iff (hd : parse s t = .ok d) {i j : Nat} {m : Mark} (h : d.partner? i = some j)
    (hm : d.marks[i]? = some m) : i < j ↔ m.marker.isEnd = false := by
  obtain ⟨m', hm', hj⟩ := (partner?_eq_some_iff hd).1 h
  obtain rfl : m' = m := Option.some.inj (hm'.symm.trans hm)
  have houter := outermost_of_parse hd
  have hpairs := houter.nested.of_block (sorted_marks hd)
  rw [isEnd_of_mem_marks hd (List.mem_of_getElem? hm), (sorted_marks hd).lt_iff hm hj]
  cases m' with
  | opening b =>
    have hlt := (hpairs b (List.mem_filterMap.2 ⟨_, List.mem_of_getElem? hm, rfl⟩)).2
    exact ⟨fun _ => ⟨b, rfl⟩, fun _ => hlt⟩
  | ending b =>
    have hlt := (hpairs b (houter.nested.mem_blocks_of_ending (List.mem_of_getElem? hm))).2
    exact ⟨fun h => absurd hlt (Nat.lt_asymm h), fun ⟨_, h⟩ => nomatch h⟩

/-- **The marks of a pair are those of a block**, which holds what stands between them. -/
theorem exists_holds_of_partner? (hd : parse s t = .ok d) {i j : Nat} (h : d.partner? i = some j)
    (hij : i < j) : ∃ b depth inner, d.marks[i]? = some (.opening b) ∧ d.marks[j]? = some (.ending b) ∧
      Encloses t depth b inner ∧ b.Holds d.marks inner ∧
      ∀ k m, d.marks[k]? = some m → (m ∈ inner ↔ i < k ∧ k < j) := by
  have houter := outermost_of_parse hd
  obtain ⟨m, hm, hj⟩ := (partner?_eq_some_iff hd).1 h
  obtain ⟨b, rfl⟩ := (isEnd_of_mem_marks hd (List.mem_of_getElem? hm)).1
    ((lt_partner_iff hd h hm).1 hij)
  obtain ⟨depth, inner, henclosed, hholds⟩ :=
    houter.exists_holds b (List.mem_filterMap.2 ⟨_, List.mem_of_getElem? hm, rfl⟩)
  refine ⟨b, depth, inner, hm, hj, henclosed, hholds, fun k n hn => ?_⟩
  rw [hholds.mem_iff (sorted_marks hd) (List.mem_of_getElem? hn), (sorted_marks hd).lt_iff hm hn,
    (sorted_marks hd).lt_iff hn hj]
  rfl

/-- **Pairs do not cross.** -/
theorem partner?_uncrossed (hd : parse s t = .ok d) {i j k l : Nat} (hij : d.partner? i = some j)
    (hkl : d.partner? k = some l) (hik : i < k) (hkj : k < j) : i < l ∧ l < j := by
  obtain ⟨b, depth, inner, -, -, henclosed, -, hmem⟩ :=
    exists_holds_of_partner? hd hij (hik.trans hkj)
  obtain ⟨q, hinside, -⟩ := henclosed.layout
  obtain ⟨m, hk, hl⟩ := (partner?_eq_some_iff hd).1 hkl
  exact (hmem l _ hl).1 (hinside.nested.partner_mem ((hmem k m hk).2 ⟨hik, hkj⟩))

/-- **Edits are not directly in edits**: if the innermost marker around an open edit marker is that of
an edit too, there is one that is further in. -/
theorem edits_apart (hd : parse s t = .ok d) {i k : Nat} {m n : Mark} (hm : d.marks[i]? = some m)
    (hn : d.marks[k]? = some n) (haround : StandsAround d.partner? i k)
    (hnearest : ∀ i', StandsAround d.partner? i' k → i' ≤ i) (hopens : n.marker.isEnd = false) :
    ¬ (m.marker.family = .edit ∧ n.marker.family = .edit) := by
  obtain ⟨j, hij, hik, hkj⟩ := haround
  obtain ⟨b, depth, inner, hi, hj, henclosed, hholds, hmem⟩ :=
    exists_holds_of_partner? hd hij (hik.trans hkj)
  obtain rfl : m = .opening b := Option.some.inj (hm.symm.trans hi)
  obtain ⟨c, rfl⟩ := (isEnd_of_mem_marks hd (List.mem_of_getElem? hn)).1 hopens
  obtain ⟨q, hinside, -⟩ := henclosed.layout
  have hc : c ∈ Mark.blocks inner := List.mem_filterMap.2 ⟨_, (hmem k _ hn).2 ⟨hik, hkj⟩, rfl⟩
  rcases hinside.direct_or_exists c hc with hdirect | ⟨a, ha, held, haholds, hmemc⟩
  · exact fun h => hdirect ⟨h.2, h.1⟩
  · -- the block in between stands around the marker too, and opens behind `b`
    have hamem : .opening a ∈ inner := Mark.opening_mem_of_mem_blocks ha
    have hmarks : inner ⊆ d.marks := fun x hx => hholds.subset (by simp [hx])
    obtain ⟨i', hi'⟩ := List.mem_iff_getElem?.1 (hmarks hamem)
    obtain ⟨j', hj'⟩ := List.mem_iff_getElem?.1 (hmarks (hinside.nested.partner_mem hamem))
    have hbetween := (Block.Holds.mem_iff (haholds.trans ?_) (sorted_marks hd)
      (List.mem_of_getElem? hn)).1 hmemc
    · have haround : StandsAround d.partner? i' k :=
        ⟨j', (partner?_eq_some_iff hd).2 ⟨_, hi', hj'⟩, ((sorted_marks hd).lt_iff hi' hn).2 hbetween.1,
          ((sorted_marks hd).lt_iff hn hj').2 hbetween.2⟩
      have hlt := ((hmem i' _ hi').1 hamem).1
      exact absurd (hnearest i' haround) (Nat.not_le_of_lt hlt)
    · exact List.IsInfix.trans ⟨[.opening b], [.ending b], by simp⟩ hholds

/-- **The markers of a document are properly nested.** The document lists the markers that the scan of the
text finds, all of them, and in the order of their openers, which are written in the text where the
markers have them. Each is paired with another one, an open marker with an end marker behind it; two
pairs lie one behind the other or one inside the other; and the innermost marker around the open marker
of an edit is not that of an edit. -/
theorem properlyNested_of_parse (hd : parse s t = .ok d) :
    Marker.scanAll t s = .ok (d.marks.map Mark.marker) ∧
      (∀ m ∈ d.marks, t.extract m.marker.openAt (m.marker.openAt + m.marker.tokens.opener.length)
        = (s.tokens m.marker.family).opener) ∧
      ProperlyNested (d.marks.map Mark.marker) d.partner? := by
  obtain ⟨husable, hlexed, -⟩ := parse_eq_ok_iff.1 hd
  refine ⟨(Lexeme.scanAll_eq_ok_iff (husable.opener .generation) (husable.closer .generation)
    (husable.opener .edit) (husable.closer .edit)).2 hlexed, fun m hm => extract_opener hd hm, ?_⟩
  exact
    { ordered := List.pairwise_map.2 (sorted_marks hd)
      isSome_iff := fun i => by rw [List.length_map]; exact isSome_partner?_iff hd i
      involutive := fun h => partner?_involutive hd h
      ne := fun h => partner?_ne hd h
      lt_iff := fun h hm => by
        obtain ⟨m, hm', rfl⟩ := Option.map_eq_some_iff.1 (List.getElem?_map.symm.trans hm)
        exact lt_partner_iff hd h hm'
      uncrossed := fun hij hkl hik hkj => partner?_uncrossed hd hij hkl hik hkj
      edits_apart := fun hm hn haround hnearest hopens => by
        obtain ⟨m, hm', rfl⟩ := Option.map_eq_some_iff.1 (List.getElem?_map.symm.trans hm)
        obtain ⟨n, hn', rfl⟩ := Option.map_eq_some_iff.1 (List.getElem?_map.symm.trans hn)
        exact edits_apart hd hm' hn' haround hnearest hopens }

/-- A text in which an edit stands inside a generation block inside an edit, and two inline blocks follow. -/
def nestedText : Text :=
  "<<[ a ]>>\n[[[ g ]]]\n<<[ b ]>>\n<<[ end ]>>\n[[[ end ]]]\n<<[ end ]>>\n[[[ h ]]] [[[ end ]]]\n"

/-- The document of that text. -/
def nestedEdits : Document :=
  ((parse .standard nestedText).toOption).getD { source := [], marks := [], edits := [] }

/-- The pairs of that document are those of places 0 and 5, 1 and 4, 2 and 3, and 6 and 7. -/
theorem properlyNested_of_parse_nestedEdits :
    parse .standard nestedText = .ok nestedEdits ∧
      (List.range 8).map nestedEdits.partner?
        = [some 5, some 4, some 3, some 2, some 1, some 0, some 7, some 6] ∧
      Marker.scanAll nestedText .standard = .ok (nestedEdits.marks.map Mark.marker) ∧
      ProperlyNested (nestedEdits.marks.map Mark.marker) nestedEdits.partner? := by
  have hd : parse .standard nestedText = .ok nestedEdits := by rfl
  obtain ⟨hscan, -, hnested⟩ := properlyNested_of_parse hd
  exact ⟨hd, by decide +kernel, hscan, hnested⟩

end Document

end Regen
