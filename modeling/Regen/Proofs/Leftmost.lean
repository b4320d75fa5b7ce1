import Regen.Proofs.Failing

/-!
# Markers from left to right

A scan is a loop within a loop: from an offset on it looks for an opener, from there for a closer, and goes on
behind that, once in the whole text and then in each gap that is left. What it finds can be said without
the loops, by the places at which tokens stand (`Text.StandsAt`). A span begins where the first opener stands
behind the span before it, and ends with the first closer behind that opener (`Text.Spanned`); the spans of a
stretch are complete if no opener stands behind the last of them (`Text.Leftmost`).

**The spans of the markers that a scan answers with are these**, those of generation markers in the whole text
and those of edit markers in each gap between them, and they do not overlap. **A scan stops at an opener**
exactly if it comes to it and no closer stands behind it in its stretch (`Text.Unclosed`), provided that no header
is rejected before (`Marker.scanAll_spanned`).

Which spans there are depends on the tokens alone. Headers matter only because a scan does not go on behind one
that cannot be read.
-/

namespace Regen

namespace Text

/-! ## Places of tokens -/

/-- **A token stands at an offset** of a text. -/
def StandsAt (token t : Text) (i : Nat) : Prop := token <+: t.drop i

instance (token t : Text) (i : Nat) : Decidable (StandsAt token t i) :=
  inferInstanceAs (Decidable (_ <+: _))

variable {token t : Text} {start stop i : Nat}

/-- A search of a text answers with the first place at which the token stands. -/
theorem find?_eq_some_iff_standsAt :
    find? token t = some i ↔ StandsAt token t i ∧ ∀ j < i, ¬ StandsAt token t j := by
  induction t generalizing i with
  | nil =>
    cases token with
    | nil =>
      constructor
      · rintro ⟨⟩
        exact ⟨List.prefix_rfl, by simp⟩
      · rintro ⟨-, hfirst⟩
        rw [Nat.eq_zero_of_not_pos fun hi => hfirst 0 hi List.prefix_rfl]
        rfl
    | cons c token => simp [find?, StandsAt]
  | cons b t ih =>
    rw [find?]
    by_cases h : token <+: b :: t
    · rw [if_pos (List.isPrefixOf_iff_prefix.2 h), Option.some.injEq]
      constructor
      · rintro rfl
        exact ⟨h, by simp⟩
      · rintro ⟨-, hfirst⟩
        by_contra hne
        exact hfirst 0 (Nat.pos_of_ne_zero (Ne.symm hne)) h
    · rw [if_neg (by rwa [List.isPrefixOf_iff_prefix]), Option.map_eq_some_iff]
      simp only [ih]
      constructor
      · rintro ⟨i, ⟨hi, hfirst⟩, rfl⟩
        refine ⟨hi, fun j hj => ?_⟩
        cases j with
        | zero => exact h
        | succ j => exact hfirst j (Nat.lt_of_succ_lt_succ hj)
      · rintro ⟨hi, hfirst⟩
        cases i with
        | zero => exact absurd hi h
        | succ i => exact ⟨i, ⟨hi, fun j hj => hfirst (j + 1) (Nat.succ_lt_succ hj)⟩, rfl⟩

/-- A search of a text answers with nothing if the token stands nowhere. -/
theorem find?_eq_none_iff_standsAt : find? token t = none ↔ ∀ j, ¬ StandsAt token t j := by
  induction t with
  | nil => simp [find?, StandsAt]
  | cons b t ih =>
    rw [find?]
    by_cases h : token <+: b :: t
    · rw [if_pos (List.isPrefixOf_iff_prefix.2 h)]
      exact iff_of_false (Option.some_ne_none 0) fun hno => hno 0 h
    · rw [if_neg (by rwa [List.isPrefixOf_iff_prefix]), Option.map_eq_none_iff, ih]
      constructor
      · rintro hno (_ | j)
        · exact h
        · exact hno j
      · exact fun hno j => hno (j + 1)

/-- A token stands in a stretch where it stands in the text and ends inside of the stretch. -/
theorem standsAt_extract (hne : token ≠ []) :
    StandsAt token (t.extract start stop) i ↔
      StandsAt token t (start + i) ∧ start + i + token.length ≤ stop := by
  have hpos := List.length_pos_of_ne_nil hne
  rw [StandsAt, List.extract_eq_take_drop, List.drop_take, List.drop_drop, List.prefix_take_iff, StandsAt]
  exact and_congr_right fun _ => by omega

/-- **A token stands first at a place** of a stretch: it stands there and ends inside of the stretch, and it stands
nowhere in front of that place. -/
structure FirstIn (token t : Text) (start stop i : Nat) : Prop where
  /-- The token stands there. -/
  stands : StandsAt token t i
  /-- It begins inside of the stretch. -/
  start_le : start ≤ i
  /-- It ends inside of the stretch. -/
  le_stop : i + token.length ≤ stop
  /-- It does not stand in front of it. -/
  first : ∀ j, start ≤ j → j < i → ¬ StandsAt token t j

/-- **A token stands nowhere** in a stretch, that is nowhere where it ends inside of the stretch. -/
def NowhereIn (token t : Text) (start stop : Nat) : Prop :=
  ∀ j, start ≤ j → j + token.length ≤ stop → ¬ StandsAt token t j

/-- A search of a stretch answers with the first place at which the token stands in it. -/
theorem findIn?_eq_some_iff_firstIn (hne : token ≠ []) :
    findIn? token t start stop = some i ↔ FirstIn token t start stop i := by
  rw [findIn?, Option.map_eq_some_iff]
  simp only [find?_eq_some_iff_standsAt, standsAt_extract hne, not_and]
  constructor
  · rintro ⟨i, ⟨⟨hi, hstop⟩, hfirst⟩, rfl⟩
    rw [Nat.add_comm]
    refine ⟨hi, Nat.le_add_right .., hstop, fun j hj hlt hstands => ?_⟩
    have := hfirst (j - start) (by omega) (by rwa [Nat.add_sub_cancel' hj])
    omega
  · rintro ⟨hi, hstart, hstop, hfirst⟩
    refine ⟨i - start, ⟨⟨by rwa [Nat.add_sub_cancel' hstart], by omega⟩, fun j hj hstands => ?_⟩,
      Nat.sub_add_cancel hstart⟩
    exact absurd hstands (hfirst _ (Nat.le_add_right ..) (by omega))

/-- A search of a stretch answers with nothing if the token stands nowhere in it. -/
theorem findIn?_eq_none_iff_nowhereIn (hne : token ≠ []) :
    findIn? token t start stop = none ↔ NowhereIn token t start stop := by
  rw [findIn?, Option.map_eq_none_iff, find?_eq_none_iff_standsAt]
  simp only [standsAt_extract hne, not_and]
  constructor
  · intro h j hj hstop hstands
    exact h (j - start) (by rwa [Nat.add_sub_cancel' hj]) (by omega)
  · exact fun h j hstands hstop => h _ (Nat.le_add_right ..) hstop hstands

/-! ## Spans -/

/-- **Spans from left to right**: from `start` on, each reaches from the first opener to the end of the first closer
behind it, and the next one is looked for behind that. After the last one that is at `next`. -/
inductive Spanned (t : Text) (k : Tokens) (stop : Nat) : (start : Nat) → List Span → (next : Nat) → Prop
  /-- No spans. -/
  | nil {start : Nat} : Spanned t k stop start [] start
  /-- A span and those behind it. -/
  | cons {start openAt closeAt next : Nat} {spans : List Span}
      (hopen : FirstIn k.opener t start stop openAt)
      (hclose : FirstIn k.closer t (openAt + k.opener.length) stop closeAt)
      (hrest : Spanned t k stop (closeAt + k.closer.length) spans next) :
      Spanned t k stop start (⟨openAt, closeAt + k.closer.length⟩ :: spans) next

/-- **The leftmost spans** of a stretch: no opener stands behind the last of them. -/
def Leftmost (t : Text) (k : Tokens) (start stop : Nat) (spans : List Span) : Prop :=
  ∃ next, Spanned t k stop start spans next ∧ NowhereIn k.opener t next stop

/-- **An opener that is not closed**, behind these spans: it is the first one there, and no closer stands behind it. -/
def Unclosed (t : Text) (k : Tokens) (start stop : Nat) (spans : List Span) (openAt : Nat) : Prop :=
  ∃ next, Spanned t k stop start spans next ∧ FirstIn k.opener t next stop openAt ∧
    NowhereIn k.closer t (openAt + k.opener.length) stop

/-- A token stands first at one place only. -/
theorem FirstIn.unique {j : Nat} (hi : FirstIn token t start stop i) (hj : FirstIn token t start stop j) :
    i = j := by
  rcases Nat.lt_trichotomy i j with h | h | h
  · exact absurd hi.stands (hj.first i hi.start_le h)
  · exact h
  · exact absurd hj.stands (hi.first j hj.start_le h)

/-- A token that stands nowhere does not stand first at any place. -/
theorem NowhereIn.not_firstIn (h : NowhereIn token t start stop) (i : Nat) : ¬ FirstIn token t start stop i :=
  fun hi => h i hi.start_le hi.le_stop hi.stands

/-- **The gaps that spans leave** in a text from an offset on. -/
def gaps (stop : Nat) : (start : Nat) → List Span → List Span
  | start, [] => [⟨start, stop⟩]
  | start, a :: spans => ⟨start, a.start⟩ :: gaps stop a.stop spans

namespace Spanned

variable {k : Tokens} {openAt closeAt next : Nat} {spans : List Span}

/-- Where an opener or its closer is missing, there are no spans. -/
theorem eq_nil (h : Spanned t k stop start spans next)
    (hno : ∀ i j, FirstIn k.opener t start stop i → ¬ FirstIn k.closer t (i + k.opener.length) stop j) :
    spans = [] ∧ next = start := by
  cases h with
  | nil => exact ⟨rfl, rfl⟩
  | cons hopen hclose _ => exact absurd hclose (hno _ _ hopen)

/-- Where there are an opener and its closer, the first span reaches from the one to the other. -/
theorem eq_cons (h : Spanned t k stop start spans next) (hopen : FirstIn k.opener t start stop openAt)
    (hclose : FirstIn k.closer t (openAt + k.opener.length) stop closeAt) (hne : next ≠ start) :
    ∃ rest, spans = ⟨openAt, closeAt + k.closer.length⟩ :: rest ∧
      Spanned t k stop (closeAt + k.closer.length) rest next := by
  cases h with
  | nil => exact absurd rfl hne
  | cons hopen' hclose' hrest =>
    obtain rfl := hopen.unique hopen'
    obtain rfl := hclose.unique hclose'
    exact ⟨_, rfl, hrest⟩

end Spanned

end Text

open Text (Spanned Leftmost Unclosed FirstIn NowhereIn gaps)

namespace Marker

/-! ## The scan of a stretch -/

/-- **The extent of a marker**: from its opener to the end of its closer. -/
def extent (m : Marker) : Span := ⟨m.openAt, m.closeEnd⟩

/-- **A marker is read at a span**, which ends with a closer. -/
def ReadAt (t : Text) (f : Family) (k : Tokens) (a : Span) (m : Marker) : Prop :=
  ∃ closeAt, a.stop = closeAt + k.closer.length ∧ read t f k a.start closeAt = .ok m

/-- **A header is accepted**: a marker can be read at the span. -/
def Accepted (t : Text) (f : Family) (k : Tokens) (a : Span) : Prop := ∃ m, ReadAt t f k a m

variable {t : Text} {f : Family} {k : Tokens} {start stop : Nat} {spans : List Span} {ms : List Marker}

/-- What is wrong with a header is never that the marker is not closed. -/
theorem read_ne_unclosed {openAt closeAt : Nat} {closer : Text} {place : Location} :
    read t f k openAt closeAt ≠ failAt (.unclosedMarker closer) place := by
  unfold read readHeader
  dsimp only
  intro h
  split at h
  · cases h
  · rename_i problem offset hflaw
    obtain ⟨rfl, -⟩ : problem = .unclosedMarker closer ∧ _ := by simpa [failAt, fail] using h
    split at hflaw
    · split at hflaw <;> cases hflaw
    · split at hflaw
      · cases hflaw
      · split at hflaw
        · cases hflaw
        · split at hflaw <;> cases hflaw

/-- A marker that is read at a span is of the family that is read for, and has this extent. -/
theorem ReadAt.extent_eq {a : Span} {m : Marker} (h : ReadAt t f k a m) : m.family = f ∧ m.extent = a := by
  obtain ⟨closeAt, hstop, h⟩ := h
  unfold read at h
  dsimp only at h
  split at h <;> cases h
  exact ⟨rfl, by rw [extent, ← hstop]⟩

/-- Markers that are read at spans are of one family, and have these extents. -/
theorem map_extent_of_readAt (h : List.Forall₂ (ReadAt t f k) spans ms) :
    (∀ m ∈ ms, m.family = f) ∧ ms.map extent = spans := by
  induction h with
  | nil => simp
  | cons hm _ ih =>
    obtain ⟨hfamily, hextent⟩ := hm.extent_eq
    exact ⟨List.forall_mem_cons.2 ⟨hfamily, ih.1⟩, by rw [List.map_cons, hextent, ih.2]⟩

/-- Where markers are read at all spans, all headers are accepted. -/
theorem accepted_of_readAt (h : List.Forall₂ (ReadAt t f k) spans ms) : ∀ a ∈ spans, Accepted t f k a := by
  induction h with
  | nil => simp
  | cons hm _ ih => exact List.forall_mem_cons.2 ⟨⟨_, hm⟩, ih⟩

/-- Where all headers are accepted, markers are read at all spans. -/
theorem exists_readAt_of_accepted (h : ∀ a ∈ spans, Accepted t f k a) :
    ∃ ms, List.Forall₂ (ReadAt t f k) spans ms := by
  induction spans with
  | nil => exact ⟨[], .nil⟩
  | cons a spans ih =>
    obtain ⟨⟨m, hm⟩, h⟩ := List.forall_mem_cons.1 h
    obtain ⟨ms, hms⟩ := ih h
    exact ⟨m :: ms, .cons hm hms⟩

variable (hopener : k.opener ≠ []) (hcloser : k.closer ≠ [])

include hopener hcloser

/-- **The first step of a scan**: there is no opener, or one that is not closed, or a marker is read and the scan goes
on behind it. -/
theorem scanFrom_cases {steps : Nat} (hsteps : stop - start < steps + 1) :
    (NowhereIn k.opener t start stop ∧ scanFrom t f k stop (steps + 1) start = .ok []) ∨
    (∃ openAt, FirstIn k.opener t start stop openAt ∧
      NowhereIn k.closer t (openAt + k.opener.length) stop ∧
      scanFrom t f k stop (steps + 1) start
        = failAt (.unclosedMarker k.closer) (Location.ofOffset t openAt k.opener.length)) ∨
    ∃ openAt closeAt, FirstIn k.opener t start stop openAt ∧
      FirstIn k.closer t (openAt + k.opener.length) stop closeAt ∧
      stop - (closeAt + k.closer.length) < steps ∧
      scanFrom t f k stop (steps + 1) start = (do
        let m ← read t f k openAt closeAt
        let rest ← scanFrom t f k stop steps (closeAt + k.closer.length)
        return m :: rest) := by
  rw [scanFrom]
  cases hopen : Text.findIn? k.opener t start stop with
  | none => exact .inl ⟨(Text.findIn?_eq_none_iff_nowhereIn hopener).1 hopen, rfl⟩
  | some openAt =>
    have hopen := (Text.findIn?_eq_some_iff_firstIn hopener).1 hopen
    dsimp only
    cases hclose : Text.findIn? k.closer t (openAt + k.opener.length) stop with
    | none =>
      exact .inr (.inl ⟨openAt, hopen, (Text.findIn?_eq_none_iff_nowhereIn hcloser).1 hclose, rfl⟩)
    | some closeAt =>
      have hclose := (Text.findIn?_eq_some_iff_firstIn hcloser).1 hclose
      refine .inr (.inr ⟨openAt, closeAt, hopen, hclose, ?_, ?_⟩)
      · have := hopen.start_le
        have := hclose.start_le
        have := hclose.le_stop
        have := List.length_pos_of_ne_nil hopener
        omega
      · dsimp only
        cases hread : read t f k openAt closeAt with
        | error e => rfl
        | ok m =>
          have hextent := (ReadAt.extent_eq (a := ⟨openAt, _⟩) ⟨closeAt, rfl, hread⟩).2
          rw [← show m.closeEnd = closeAt + k.closer.length from congrArg Span.stop hextent]
          rfl

/-- **What the scan of a stretch answers with**: the markers that are read at the leftmost spans. -/
theorem scanFrom_eq_ok_iff_leftmost {steps : Nat} (hsteps : stop - start < steps) :
    scanFrom t f k stop steps start = .ok ms ↔
      ∃ spans, Leftmost t k start stop spans ∧ List.Forall₂ (ReadAt t f k) spans ms := by
  induction steps generalizing start ms with
  | zero => omega
  | succ steps ih =>
    rcases scanFrom_cases (f := f) hopener hcloser hsteps with ⟨hno, hscan⟩ |
      ⟨openAt, hopen, hno, hscan⟩ | ⟨openAt, closeAt, hopen, hclose, hfewer, hscan⟩
    · rw [hscan]
      constructor
      · rintro ⟨⟩
        exact ⟨[], ⟨start, .nil, hno⟩, .nil⟩
      · rintro ⟨spans, ⟨next, hspanned, -⟩, hread⟩
        obtain ⟨rfl, -⟩ := hspanned.eq_nil fun i _ hi => absurd hi (hno.not_firstIn i)
        cases hread
        rfl
    · rw [hscan]
      refine iff_of_false (by rintro ⟨⟩) ?_
      rintro ⟨spans, ⟨next, hspanned, hlast⟩, -⟩
      obtain ⟨-, rfl⟩ := hspanned.eq_nil fun i j hi => hopen.unique hi ▸ hno.not_firstIn j
      exact hlast.not_firstIn _ hopen
    · rw [hscan, bind_eq_ok_iff]
      constructor
      · rintro ⟨m, hm, h⟩
        obtain ⟨rest, hrest, ⟨⟩⟩ := bind_eq_ok_iff.1 h
        obtain ⟨spans, ⟨next, hspanned, hlast⟩, hread⟩ := (ih hfewer).1 hrest
        exact ⟨_, ⟨next, .cons hopen hclose hspanned, hlast⟩, .cons ⟨closeAt, rfl, hm⟩ hread⟩
      · rintro ⟨spans, ⟨next, hspanned, hlast⟩, hread⟩
        obtain ⟨spans, rfl, hbehind⟩ := hspanned.eq_cons hopen hclose (by
          rintro rfl
          exact hlast.not_firstIn _ hopen)
        obtain _ | ⟨⟨closeAt', hstop, hm⟩, hread⟩ := hread
        obtain rfl : closeAt = closeAt' := Nat.add_right_cancel hstop
        exact ⟨_, hm, bind_eq_ok_iff.2 ⟨_, (ih hfewer).2 ⟨spans, ⟨next, hbehind, hlast⟩, hread⟩, rfl⟩⟩

/-- **Where the scan of a stretch stops for want of a closer**: at an opener that is not closed, where all headers
in front of it are accepted. -/
theorem scanFrom_eq_unclosed_iff {steps : Nat} (hsteps : stop - start < steps) {closer : Text}
    {place : Location} :
    scanFrom t f k stop steps start = failAt (.unclosedMarker closer) place ↔
      ∃ spans openAt, Unclosed t k start stop spans openAt ∧ (∀ a ∈ spans, Accepted t f k a) ∧
        closer = k.closer ∧ place = Location.ofOffset t openAt k.opener.length := by
  induction steps generalizing start with
  | zero => omega
  | succ steps ih =>
    rcases scanFrom_cases (f := f) hopener hcloser hsteps with ⟨hno, hscan⟩ |
      ⟨openAt, hopen, hno, hscan⟩ | ⟨openAt, closeAt, hopen, hclose, hfewer, hscan⟩
    · rw [hscan]
      refine iff_of_false (by rintro ⟨⟩) ?_
      rintro ⟨spans, openAt, ⟨next, hspanned, hfirst, -⟩, -⟩
      obtain ⟨-, rfl⟩ := hspanned.eq_nil fun i _ hi => absurd hi (hno.not_firstIn i)
      exact hno.not_firstIn _ hfirst
    · rw [hscan]
      constructor
      · intro h
        obtain ⟨rfl, rfl⟩ : k.closer = closer ∧ Location.ofOffset t openAt k.opener.length = place := by
          simpa [failAt, fail] using h
        exact ⟨[], openAt, ⟨start, .nil, hopen, hno⟩, by simp, rfl, rfl⟩
      · rintro ⟨spans, openAt', ⟨next, hspanned, hfirst, -⟩, -, rfl, rfl⟩
        obtain ⟨-, rfl⟩ := hspanned.eq_nil fun i j hi => hopen.unique hi ▸ hno.not_firstIn j
        rw [hopen.unique hfirst]
    · rw [hscan]
      constructor
      · intro h
        rcases bind_eq_error_iff.1 h with h | ⟨m, hm, h⟩
        · exact absurd h read_ne_unclosed
        · rcases bind_eq_error_iff.1 h with h | ⟨rest, -, ⟨⟩⟩
          obtain ⟨spans, openAt', ⟨next, hspanned, hlast⟩, haccepted, hends⟩ := (ih hfewer).1 h
          exact ⟨_, openAt', ⟨next, .cons hopen hclose hspanned, hlast⟩,
            List.forall_mem_cons.2 ⟨⟨m, closeAt, rfl, hm⟩, haccepted⟩, hends⟩
      · rintro ⟨spans, openAt', ⟨next, hspanned, hfirst, hno⟩, haccepted, hends⟩
        obtain ⟨spans, rfl, hbehind⟩ := hspanned.eq_cons hopen hclose (by
          rintro rfl
          exact hno.not_firstIn _ (hopen.unique hfirst ▸ hclose))
        obtain ⟨⟨m, closeAt', hstop, hm⟩, haccepted⟩ := List.forall_mem_cons.1 haccepted
        obtain rfl : closeAt = closeAt' := Nat.add_right_cancel hstop
        have hrest := (ih hfewer).2 ⟨spans, openAt', ⟨next, hbehind, hfirst, hno⟩, haccepted, hends⟩
        exact bind_eq_error_iff.2 (.inr ⟨m, hm, bind_eq_error_iff.2 (.inl hrest)⟩)

omit hopener hcloser

/-! ## The scan of the gaps -/

/-- **The scan of stretches stops at an opener** in the first of them, or in one behind it, when the first one is
done. All headers up to there are accepted. -/
inductive StopsIn (t : Text) (f : Family) (k : Tokens) : List Span → (openAt : Nat) → Prop
  /-- The opener is not closed in the first stretch. -/
  | here {gap : Span} {gaps spans : List Span} {openAt : Nat}
      (hunclosed : Unclosed t k gap.start gap.stop spans openAt) (haccepted : ∀ a ∈ spans, Accepted t f k a) :
      StopsIn t f k (gap :: gaps) openAt
  /-- The first stretch is done, and the opener is in another one. -/
  | later {gap : Span} {gaps spans : List Span} {openAt : Nat}
      (hspans : Leftmost t k gap.start gap.stop spans) (haccepted : ∀ a ∈ spans, Accepted t f k a)
      (hrest : StopsIn t f k gaps openAt) : StopsIn t f k (gap :: gaps) openAt

/-- **Where the scan of a text stops for want of a closer**: at an opener of a generation marker, or, when all of these
are found, at one of an edit marker in a gap between them. -/
inductive StopsAt (t : Text) (s : Settings) : Family → (openAt : Nat) → Prop
  /-- At an opener of a generation marker. -/
  | generation {openAt : Nat} (h : StopsIn t .generation s.generation [⟨0, t.length⟩] openAt) :
      StopsAt t s .generation openAt
  /-- At an opener of an edit marker in a gap. -/
  | edit {spans : List Span} {openAt : Nat} (hspans : Leftmost t s.generation 0 t.length spans)
      (haccepted : ∀ a ∈ spans, Accepted t .generation s.generation a)
      (h : StopsIn t .edit s.edit (gaps t.length 0 spans) openAt) : StopsAt t s .edit openAt

include hopener hcloser in
/-- The scan of the gaps answers with the markers that leave them, and with those at the leftmost spans of each gap. -/
theorem leftmost_of_scanGaps {gms : List Marker} (hgms : ∀ m ∈ gms, m.family = .generation)
    (h : scanGaps t k start gms = .ok ms) :
    ms.filter (·.family = .generation) = gms ∧
      ∃ parts, List.Forall₂ (fun gap part => Leftmost t k gap.start gap.stop part)
          (gaps t.length start (gms.map extent)) parts ∧
        (ms.filter (·.family = .edit)).map extent = parts.flatten := by
  have hfound : ∀ {start stop ms}, scan t .edit k start stop = .ok ms →
      ms.filter (·.family = .generation) = [] ∧ ms.filter (·.family = .edit) = ms ∧
        Leftmost t k start stop (ms.map extent) := by
    intro start stop ms h
    obtain ⟨spans, hspans, hread⟩ := (scanFrom_eq_ok_iff_leftmost hopener hcloser (by omega)).1 h
    obtain ⟨hfamily, rfl⟩ := map_extent_of_readAt hread
    refine ⟨?_, ?_, hspans⟩
    · exact List.filter_eq_nil_iff.2 fun m hm => by simp [hfamily m hm]
    · exact List.filter_eq_self.2 fun m hm => by simp [hfamily m hm]
  induction gms generalizing start ms with
  | nil =>
    obtain ⟨hgeneration, hedit, hspans⟩ := hfound h
    exact ⟨hgeneration, [ms.map extent], .cons hspans .nil, by rw [hedit]; simp⟩
  | cons m gms ih =>
    obtain ⟨hm, hgms⟩ := List.forall_mem_cons.1 hgms
    rw [scanGaps, bind_eq_ok_iff] at h
    obtain ⟨before, hbefore, h⟩ := h
    obtain ⟨after, hafter, ⟨⟩⟩ := bind_eq_ok_iff.1 h
    obtain ⟨hgeneration, hedit, hspans⟩ := hfound hbefore
    obtain ⟨rfl, parts, hparts, hafter⟩ := ih hgms hafter
    refine ⟨by simp [hgeneration, hm], before.map extent :: parts, .cons hspans hparts, ?_⟩
    simp [hedit, hm, hafter]

include hopener hcloser in
/-- The scan of the gaps stops for want of a closer where it comes to an opener that is not closed. -/
theorem scanGaps_eq_unclosed_iff {gms : List Marker} {closer : Text} {place : Location} :
    scanGaps t k start gms = failAt (.unclosedMarker closer) place ↔
      ∃ openAt, StopsIn t .edit k (gaps t.length start (gms.map extent)) openAt ∧ closer = k.closer ∧
        place = Location.ofOffset t openAt k.opener.length := by
  have hfails : ∀ start stop, scanFrom t .edit k stop (stop - start + 1) start
      = failAt (.unclosedMarker closer) place ↔ _ := fun _ _ =>
    scanFrom_eq_unclosed_iff hopener hcloser (Nat.lt_succ_self _)
  induction gms generalizing start with
  | nil =>
    rw [scanGaps, scan, hfails]
    constructor
    · rintro ⟨spans, openAt, hunclosed, haccepted, hends⟩
      exact ⟨openAt, .here hunclosed haccepted, hends⟩
    · rintro ⟨openAt, ⟨hunclosed, haccepted⟩ | ⟨-, -, ⟨⟩⟩, hends⟩
      exact ⟨_, openAt, hunclosed, haccepted, hends⟩
  | cons m gms ih =>
    rw [scanGaps]
    constructor
    · intro h
      rcases bind_eq_error_iff.1 h with h | ⟨before, hbefore, h⟩
      · obtain ⟨spans, openAt, hunclosed, haccepted, hends⟩ := (hfails _ _).1 h
        exact ⟨openAt, .here hunclosed haccepted, hends⟩
      · rcases bind_eq_error_iff.1 h with h | ⟨after, -, ⟨⟩⟩
        obtain ⟨openAt, hstops, hends⟩ := ih.1 h
        obtain ⟨spans, hspans, hread⟩ := (scanFrom_eq_ok_iff_leftmost hopener hcloser (by omega)).1 hbefore
        exact ⟨openAt, .later hspans (accepted_of_readAt hread) hstops, hends⟩
    · rintro ⟨openAt, ⟨hunclosed, haccepted⟩ | ⟨hspans, haccepted, hstops⟩, hends⟩
      · exact bind_eq_error_iff.2 (.inl ((hfails _ _).2 ⟨_, openAt, hunclosed, haccepted, hends⟩))
      · obtain ⟨before, hread⟩ := exists_readAt_of_accepted haccepted
        have hbefore := (scanFrom_eq_ok_iff_leftmost hopener hcloser (Nat.lt_succ_self _)).2 ⟨_, hspans, hread⟩
        exact bind_eq_error_iff.2 (.inr ⟨before, hbefore,
          bind_eq_error_iff.2 (.inl (ih.2 ⟨openAt, hstops, hends⟩))⟩)

/-- **The spans of the markers of a family.** -/
def extents (f : Family) (ms : List Marker) : List Span := (ms.filter (·.family = f)).map extent

/-- **The scan finds exactly the markers that a text holds.** If it succeeds, the spans of the generation markers are
the leftmost ones of the text, those of the edit markers are the leftmost ones of each gap that the former leave,
and no two of them overlap. It stops for want of a closer exactly if it comes to an opener that no closer follows
in its stretch, and all headers in front of it are accepted; it then reports the place of that opener. -/
theorem scanAll_spanned {s : Settings} (hopener : ∀ f, (s.tokens f).opener ≠ [])
    (hcloser : ∀ f, (s.tokens f).closer ≠ []) (t : Text) :
    (∀ ms, scanAll t s = .ok ms →
      Leftmost t s.generation 0 t.length (extents .generation ms) ∧
        (∃ parts, List.Forall₂ (fun gap part => Leftmost t s.edit gap.start gap.stop part)
            (gaps t.length 0 (extents .generation ms)) parts ∧ extents .edit ms = parts.flatten) ∧
        (ms.map extent).Pairwise (·.stop ≤ ·.start)) ∧
    ∀ closer place, scanAll t s = failAt (.unclosedMarker closer) place ↔
      ∃ f openAt, StopsAt t s f openAt ∧ closer = (s.tokens f).closer ∧
        place = Location.ofOffset t openAt (s.tokens f).opener.length := by
  have hscan : ∀ gms, scanFrom t .generation s.generation t.length (t.length - 0 + 1) 0 = .ok gms ↔ _ := fun _ =>
    scanFrom_eq_ok_iff_leftmost (hopener .generation) (hcloser .generation) (Nat.lt_succ_self _)
  have hgaps := @scanGaps_eq_unclosed_iff t s.edit 0 (hopener .edit) (hcloser .edit)
  refine ⟨fun ms h => ?_, fun closer place => ⟨fun h => ?_, ?_⟩⟩
  · have hlexed := (Lexeme.scanAll_eq_ok_iff (hopener .generation) (hcloser .generation) (hopener .edit)
      (hcloser .edit)).1 h
    obtain ⟨gms, hgms, h⟩ := bind_eq_ok_iff.1 h
    obtain ⟨spans, hspans, hread⟩ := (hscan gms).1 hgms
    obtain ⟨hfamily, rfl⟩ := map_extent_of_readAt hread
    obtain ⟨hgeneration, hedit⟩ := leftmost_of_scanGaps (hopener .edit) (hcloser .edit) hfamily h
    obtain ⟨ls, -, -, hmarkers⟩ := hlexed
    rw [extents, hgeneration]
    exact ⟨hspans, hedit, List.pairwise_map.2 (Lexeme.stands_of_markersFrom hmarkers).2⟩
  · rcases bind_eq_error_iff.1 h with h | ⟨gms, hgms, h⟩
    · obtain ⟨spans, openAt, hunclosed, haccepted, hends⟩ := (scanFrom_eq_unclosed_iff (hopener .generation)
        (hcloser .generation) (Nat.lt_succ_self _)).1 h
      exact ⟨.generation, openAt, .generation (.here hunclosed haccepted), hends⟩
    · obtain ⟨spans, hspans, hread⟩ := (hscan gms).1 hgms
      obtain ⟨-, rfl⟩ := map_extent_of_readAt hread
      obtain ⟨openAt, hstops, hends⟩ := hgaps.1 h
      exact ⟨.edit, openAt, .edit hspans (accepted_of_readAt hread) hstops, hends⟩
  · rintro ⟨f, openAt, ⟨⟨hunclosed, haccepted⟩ | ⟨-, -, ⟨⟩⟩⟩ | ⟨hspans, haccepted, hstops⟩, hends⟩
    · exact bind_eq_error_iff.2 (.inl ((scanFrom_eq_unclosed_iff (hopener .generation) (hcloser .generation)
        (Nat.lt_succ_self _)).2 ⟨_, openAt, hunclosed, haccepted, hends⟩))
    · obtain ⟨gms, hread⟩ := exists_readAt_of_accepted haccepted
      have hgms := (hscan gms).2 ⟨_, hspans, hread⟩
      obtain ⟨-, rfl⟩ := map_extent_of_readAt hread
      exact bind_eq_error_iff.2 (.inr ⟨gms, hgms, hgaps.2 ⟨openAt, hstops, hends⟩⟩)

/-- Tokens of which one holds another: a closer of edit markers is two openers. -/
def doubled : Settings :=
  { Settings.standard with
    generation := { Tokens.generation with opener := "<", closer := ">" }
    edit := { Tokens.edit with opener := "=", closer := "==" } }

/-- The markers of a text in which each closer could be read as openers, and so could the header of the generation
marker. -/
def doubledMarkers : List Marker := (scanAll "=a==<=>=b==" doubled).toOption.getD []

/-- The header of the generation marker is not read as an edit marker. With one more opener in front of it the scan
stops, for the closers behind the generation marker are in another gap. -/
theorem scanAll_spanned_doubled :
    (∀ f, (doubled.tokens f).opener ≠ []) ∧ (∀ f, (doubled.tokens f).closer ≠ []) ∧
      scanAll "=a==<=>=b==" doubled = .ok doubledMarkers ∧
      extents .generation doubledMarkers = [⟨4, 7⟩] ∧ extents .edit doubledMarkers = [⟨0, 4⟩, ⟨7, 11⟩] ∧
      Leftmost "=a==<=>=b==" doubled.generation 0 11 (extents .generation doubledMarkers) ∧
      ∃ f openAt, StopsAt "=a===<=>=b==" doubled f openAt ∧ (doubled.tokens f).closer = "==" ∧
        Location.ofOffset "=a===<=>=b==" 4 1
          = Location.ofOffset "=a===<=>=b==" openAt (doubled.tokens f).opener.length := by
  have hopener : ∀ f, (doubled.tokens f).opener ≠ [] := fun f => by cases f <;> decide
  have hcloser : ∀ f, (doubled.tokens f).closer ≠ [] := fun f => by cases f <;> decide
  have hfound := ((scanAll_spanned hopener hcloser "=a==<=>=b==").1 doubledMarkers (by rfl)).1
  obtain ⟨f, openAt, hstops, hends⟩ := ((scanAll_spanned hopener hcloser "=a===<=>=b==").2 "=="
    (Location.ofOffset "=a===<=>=b==" 4 1)).1 (by rfl)
  exact ⟨hopener, hcloser, by rfl, by decide +kernel, by decide +kernel, hfound, f, openAt, hstops, hends.1.symm,
    hends.2⟩

end Marker

end Regen
