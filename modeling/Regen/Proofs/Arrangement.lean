import Regen.Proofs.Success
import Regen.Pairing

/-!
# How blocks may be arranged

The pass over the markers keeps a stack, a layout for each open block and a rule for the next
marker. What it accepts can be said without any of these. Inside a block all markers are on one
line with the one before them, or none is, as the block is inline or not; inside an inline block
every block is inline; and no edit stands directly inside an edit (`Inside`). Between outermost
blocks a line ends unless both are inline (`Outermost`).

The rule that the pass carries along is thereby seen to matter between outermost blocks only:
inside a block the layout of that block says it all. The two directions of `pairMarkers_eq_ok_iff`
are inductions of different kinds. That accepted markers are well arranged is an induction on the
number of markers, the end of an open block being found first; the other way round it is one on the
arrangement.
-/

namespace Regen

open Pairing

/-! ## The block of two markers -/

namespace Block

variable (t : Text) (opening ending : Marker) (depth : Nat) (isInline : Bool)

@[simp] theorem ofMarkers_opening :
    (ofMarkers t opening ending depth isInline).opening = opening := by
  unfold ofMarkers inlineOf linesOf
  split <;> (try split) <;> (try split) <;> rfl

@[simp] theorem ofMarkers_ending :
    (ofMarkers t opening ending depth isInline).ending = ending := by
  unfold ofMarkers inlineOf linesOf
  split <;> (try split) <;> (try split) <;> rfl

@[simp] theorem ofMarkers_depth :
    (ofMarkers t opening ending depth isInline).depth = depth := by
  unfold ofMarkers inlineOf linesOf
  split <;> (try split) <;> (try split) <;> rfl

@[simp] theorem ofMarkers_isInline :
    (ofMarkers t opening ending depth isInline).isInline = isInline := by
  cases isInline
  · rfl
  · show (inlineOf t opening ending depth).isInline = true
    unfold inlineOf
    split <;> (try split) <;> rfl

end Block

/-! ## Arrangements -/

/-- **Marks inside a block** of a family and a layout. `depth` is that of the blocks among the
marks, `p` the marker in front of them and the last argument the last marker, which is `p` again
if there are none. -/
inductive Inside (t : Text) : (family : Family) → (isInline : Bool) → (depth : Nat) →
    (p : Marker) → List Mark → Marker → Prop
  /-- No marks. -/
  | nil {family : Family} {isInline : Bool} {depth : Nat} {p : Marker} :
      Inside t family isInline depth p [] p
  /-- A block, with what stands inside it, and what follows it. -/
  | block {family : Family} {isInline : Bool} {depth : Nat} {p q r : Marker} {b : Block}
      {inner rest : List Mark} (hopens : b.opening.isEnd = false) (hends : b.ending.isEnd = true)
      (hformed : b = Block.ofMarkers t b.opening b.ending depth b.isInline)
      (hline : onSameLine t p b.opening = isInline) (hinline : isInline → b.isInline)
      (hedit : ¬ (b.family = .edit ∧ family = .edit))
      (hinner : Inside t b.family b.isInline (depth + 1) b.opening inner q)
      (hclose : onSameLine t q b.ending = b.isInline) (hclash : clashes (some q) b.ending = false)
      (hrest : Inside t family isInline depth b.ending rest r) :
      Inside t family isInline depth p (.opening b :: (inner ++ .ending b :: rest)) r

/-- A block and the marks inside it, without regard to what stands around the block. -/
structure Encloses (t : Text) (depth : Nat) (b : Block) (inner : List Mark) : Prop where
  /-- It is opened by an open marker. -/
  opens : b.opening.isEnd = false
  /-- It is ended by an end marker. -/
  ends : b.ending.isEnd = true
  /-- Its spans and its body are those of its markers. -/
  formed : b = Block.ofMarkers t b.opening b.ending depth b.isInline
  /-- The marks inside it keep to its layout, and its end marker does. -/
  layout : ∃ q, Inside t b.family b.isInline (depth + 1) b.opening inner q ∧
    onSameLine t q b.ending = b.isInline ∧ clashes (some q) b.ending = false

/-- **Outermost marks**, given the outermost block in front of them. -/
inductive Outermost (t : Text) : (previous? : Option Block) → List Mark → Prop
  /-- No marks. -/
  | nil {previous? : Option Block} : Outermost t previous? []
  /-- A block, with what stands inside it, and what follows it. -/
  | block {previous? : Option Block} {b : Block} {inner rest : List Mark}
      (henclosed : Encloses t 1 b inner)
      (hfits : ∀ a ∈ previous?, onSameLine t a.ending b.opening → a.isInline ∧ b.isInline)
      (hrest : Outermost t (some b) rest) :
      Outermost t previous? (.opening b :: (inner ++ .ending b :: rest))

variable {t : Text}

/-- Two markers make a block around marks that keep to its layout. -/
theorem Block.encloses_ofMarkers {opening ending q : Marker} {isInline : Bool} {depth : Nat}
    {inner : List Mark} (hopens : opening.isEnd = false) (hends : ending.isEnd = true)
    (hinner : Inside t opening.family isInline (depth + 1) opening inner q)
    (hclose : onSameLine t q ending = isInline) (hclash : clashes (some q) ending = false) :
    Encloses t depth (ofMarkers t opening ending depth isInline) inner :=
  ⟨by simpa, by simpa, by simp, q, by simpa [family], by simpa, by simpa⟩

/-- Two markers that fit in with what is around them make a block inside another one. -/
theorem Block.inside_ofMarkers {family : Family} {isInline isInline' : Bool} {depth : Nat}
    {p r opening ending : Marker} {inner rest : List Mark}
    (h : Encloses t depth (ofMarkers t opening ending depth isInline') inner)
    (hline : onSameLine t p opening = isInline) (hinline : isInline → isInline')
    (hedit : ¬ (opening.family = .edit ∧ family = .edit))
    (hrest : Inside t family isInline depth ending rest r) :
    Inside t family isInline depth p (.opening (ofMarkers t opening ending depth isInline') ::
      (inner ++ .ending (ofMarkers t opening ending depth isInline') :: rest)) r := by
  obtain ⟨q, hinner, hclose, hclash⟩ := h.layout
  exact .block h.opens h.ends h.formed (by simpa) (by simpa) (by simpa [Block.family] using hedit)
    hinner hclose hclash (by simpa)

/-! ## One step -/

/-- A layout is settled by the first marker, and all further ones agree with it. -/
theorem settleLayout_eq_ok_iff {known? settled? : Option Bool} {sameLine : Bool} :
    settleLayout known? sameLine = .ok settled? ↔
      settled? = some sameLine ∧ ∀ l ∈ known?, sameLine = l := by
  rcases known? with _ | _ | _ <;> cases sameLine <;> simp [settleLayout, eq_comm]

namespace Pairing

variable {s s' : Pairing} {top : OpenBlock} {outer : List OpenBlock} {p m : Marker}

/-- The pass after the innermost open block has been ended. -/
def ended (t : Text) (s : Pairing) (top : OpenBlock) (outer : List OpenBlock) (m : Marker)
    (isInline : Bool) : Pairing :=
  let b := Block.ofMarkers t top.marker m (outer.length + 1) isInline
  let marks := .opening b :: (top.inner ++ [.ending b])
  { stack := (append marks outer s.closed).1
    closed := (append marks outer s.closed).2
    previous? := some m
    rule := if isInline then .undecided else .newLine }

/-- Inside a block the pass goes on to a marker that agrees with the layout and with the rule. -/
theorem advance_eq_ok_iff (hs : s.stack = top :: outer) (hp : s.previous? = some p) :
    advance t s m = .ok s' ↔
      (∀ l ∈ top.layout?, onSameLine t p m = l) ∧
        ∃ rule, s.rule.next (onSameLine t p m) = .ok rule ∧
          s' = { s with
            stack := { top with layout? := some (onSameLine t p m) } :: outer
            previous? := some m
            rule } := by
  simp only [advance, hp, hs, noteLayout, bind_eq_ok_iff, settleLayout_eq_ok_iff]
  constructor
  · rintro ⟨rule, hrule, _, ⟨_, ⟨rfl, hl⟩, ⟨⟩⟩, ⟨⟩⟩
    exact ⟨hl, rule, hrule, rfl⟩
  · rintro ⟨hl, rule, hrule, rfl⟩
    exact ⟨rule, hrule, _, ⟨_, ⟨rfl, hl⟩, rfl⟩, rfl⟩

/-- **An end marker inside a block** is accepted if it keeps to the layout of the block. -/
theorem step_ending_iff (hs : s.stack = top :: outer) (hp : s.previous? = some p)
    (hm : m.isEnd = true) :
    step t s m = .ok s' ↔
      clashes (some p) m = false ∧ (∀ l ∈ top.layout?, onSameLine t p m = l) ∧
        (∃ rule, s.rule.next (onSameLine t p m) = .ok rule) ∧
        s' = s.ended t top outer m (onSameLine t p m) := by
  have hnests : nestsEdits s.stack m = false := by simp [nestsEdits, hs, hm]
  have hpop : ∀ rule, pop t { s with
      stack := { top with layout? := some (onSameLine t p m) } :: outer
      previous? := some m
      rule } m = .ok (s.ended t top outer m (onSameLine t p m)) := by
    intro rule
    cases hl : onSameLine t p m <;> simp [pop, ended, append]
  unfold step
  rw [hnests, hp]
  cases clashes (some p) m with
  | true => simp
  | false =>
    simp only [Bool.false_eq_true, ite_false, hm, ite_true, bind_eq_ok_iff, true_and,
      advance_eq_ok_iff hs hp]
    constructor
    · rintro ⟨_, ⟨hl, rule, hrule, rfl⟩, hs'⟩
      rw [hpop] at hs'
      cases hs'
      exact ⟨hl, ⟨rule, hrule⟩, rfl⟩
    · rintro ⟨hl, ⟨rule, hrule⟩, rfl⟩
      exact ⟨_, ⟨hl, rule, hrule, rfl⟩, hpop rule⟩

/-- **An open marker inside a block** is accepted if it keeps to the layout of the block. -/
theorem step_opening_iff (hs : s.stack = top :: outer) (hp : s.previous? = some p)
    (hm : m.isEnd = false) :
    step t s m = .ok s' ↔
      ¬ (m.family = .edit ∧ top.marker.family = .edit) ∧
        (∀ l ∈ top.layout?, onSameLine t p m = l) ∧
        ∃ rule, s.rule.next (onSameLine t p m) = .ok rule ∧
          s' = { s with
            stack := ⟨m, if onSameLine t p m then some true else none, []⟩ ::
              { top with layout? := some (onSameLine t p m) } :: outer
            previous? := some m
            rule } := by
  have hclash : clashes s.previous? m = false := by simp [clashes, hp, hm]
  have hnests : nestsEdits s.stack m = true ↔ m.family = .edit ∧ top.marker.family = .edit := by
    simp [nestsEdits, hs, hm]
  unfold step
  rw [hclash]
  by_cases hedit : nestsEdits s.stack m = true
  · simp [hedit, hnests.1 hedit]
  · rw [hnests] at hedit
    simp only [Bool.false_eq_true, ite_false, hnests, hedit, hm, bind_eq_ok_iff,
      advance_eq_ok_iff hs hp, not_false_eq_true, true_and]
    constructor
    · rintro ⟨_, ⟨hl, rule, hrule, rfl⟩, hs'⟩
      refine ⟨hl, rule, hrule, ?_⟩
      cases hs'
      cases onSameLine t p m <;> simp [push]
    · rintro ⟨hl, rule, hrule, rfl⟩
      refine ⟨_, ⟨hl, rule, hrule, rfl⟩, ?_⟩
      cases onSameLine t p m <;> simp [push] <;> rfl

/-- The first of all markers is accepted if it is an open marker. -/
theorem step_first_iff (hs : s.stack = []) (hp : s.previous? = none) :
    step t s m = .ok s' ↔
      m.isEnd = false ∧ s' = { s with stack := [⟨m, none, []⟩], previous? := some m } := by
  unfold step
  cases hm : m.isEnd <;>
    simp [clashes, nestsEdits, advance, push, pop, hs, hp, bind, Except.bind, pure,
      Except.pure, eq_comm]

/-- **An outermost marker** is accepted if it is an open marker and follows the rule. -/
theorem step_outermost_iff (hs : s.stack = []) (hp : s.previous? = some p) :
    step t s m = .ok s' ↔
      m.isEnd = false ∧ ∃ rule, s.rule.next (onSameLine t p m) = .ok rule ∧
        s' = { s with stack := [⟨m, none, []⟩], previous? := some m, rule } := by
  have hadvance : ∀ s', advance t s m = .ok s' ↔
      ∃ rule, s.rule.next (onSameLine t p m) = .ok rule ∧
        s' = { s with previous? := some m, rule } := by
    intro s'
    simp only [advance, hp, hs, noteLayout, bind_eq_ok_iff]
    constructor
    · rintro ⟨rule, hrule, _, ⟨⟩, ⟨⟩⟩
      exact ⟨rule, hrule, rfl⟩
    · rintro ⟨rule, hrule, rfl⟩
      exact ⟨rule, hrule, _, rfl, rfl⟩
  have hnests : nestsEdits s.stack m = false := by simp [nestsEdits, hs]
  unfold step
  rw [hnests, hp]
  cases hm : m.isEnd with
  | true =>
    cases clashes (some p) m with
    | true => simp
    | false =>
      simp only [Bool.false_eq_true, ite_false, bind_eq_ok_iff, hadvance, ite_true,
        reduceCtorEq, false_and, iff_false]
      rintro ⟨_, ⟨rule, -, rfl⟩, hpop⟩
      simp [pop, hs] at hpop
  | false =>
    have hclash : clashes (some p) m = false := by simp [clashes, hm]
    simp only [hclash, Bool.false_eq_true, ite_false, bind_eq_ok_iff, hadvance, true_and]
    constructor
    · rintro ⟨_, ⟨rule, hrule, rfl⟩, hs'⟩
      refine ⟨rule, hrule, ?_⟩
      cases hs'
      simp [push, hs]
    · rintro ⟨rule, hrule, rfl⟩
      exact ⟨_, ⟨rule, hrule, rfl⟩, by simp [push, hs]; rfl⟩

/-! ## Accepted markers are well arranged -/

/-- The pass meets one marker after the other. -/
theorem run_cons_iff {ms : List Marker} :
    run t s (m :: ms) = .ok s' ↔ ∃ s₁, step t s m = .ok s₁ ∧ run t s₁ ms = .ok s' := by
  rw [run]
  cases step t s m <;> simp [failAt, fail]

/-- The pass goes on from an accepted marker. -/
theorem run_cons_of_step {s₁ : Pairing} {ms : List Marker} (h : step t s m = .ok s₁) :
    run t s (m :: ms) = run t s₁ ms := by
  rw [run, h]

/-- Where the rule asks for the same line, the next marker is on it. -/
theorem sameLine_of_next {sameLine : Bool} {rule : LineRule}
    (h : LineRule.next .sameLine sameLine = .ok rule) : sameLine = true := by
  cases sameLine
  · cases h
  · rfl

/-- **An open block is ended**, if the pass gets back to the blocks around it, and what stands
inside it is well arranged. -/
theorem exists_ended (n : Nat) {ms : List Marker} (hn : ms.length = n)
    (hs : s.stack = top :: outer) (hp : s.previous? = some p) (hrun : run t s ms = .ok s')
    (hlen : s'.stack.length ≤ outer.length) :
    ∃ inner q e isInline rest, ms = inner.map Mark.marker ++ e :: rest ∧ e.isEnd = true ∧
      Inside t top.marker.family isInline (outer.length + 2) p inner q ∧
      onSameLine t q e = isInline ∧ clashes (some q) e = false ∧
      (∀ l ∈ top.layout?, isInline = l) ∧ (s.rule = .sameLine → isInline = true) ∧
      run t (s.ended t { top with inner := top.inner ++ inner } outer e isInline) rest
        = .ok s' := by
  induction n using Nat.strongRecOn generalizing ms s top outer p with
  | ind n ih =>
    cases ms with
    | nil =>
      cases hrun
      rw [hs, List.length_cons] at hlen
      omega
    | cons m ms =>
      obtain ⟨s₁, hstep, hrun⟩ := run_cons_iff.1 hrun
      cases hm : m.isEnd with
      | true =>
        obtain ⟨hclash, hlayout, ⟨rule, hrule⟩, rfl⟩ := (step_ending_iff hs hp hm).1 hstep
        refine ⟨[], p, m, _, ms, rfl, hm, .nil, rfl, hclash, hlayout, fun hsame => ?_, ?_⟩
        · rw [hsame] at hrule
          exact sameLine_of_next hrule
        · rwa [List.append_nil]
      | false =>
        obtain ⟨hedit, hlayout, rule, hrule, rfl⟩ := (step_opening_iff hs hp hm).1 hstep
        -- first the end of the block that `m` opens, then the end of the block around it
        obtain ⟨inner₁, q₁, e₁, inline₁, ms₁, rfl, he₁, hinside₁, hclose₁, hclash₁, hl₁, -, hrun⟩ :=
          ih ms.length (by simp at hn; omega) rfl rfl rfl hrun (by simp; omega)
        obtain ⟨inner₂, q₂, e₂, inline₂, ms₂, rfl, he₂, hinside₂, hclose₂, hclash₂, hl₂, -, hrun⟩ :=
          ih ms₁.length (by simp at hn; omega) rfl rfl rfl hrun hlen
        have hline : onSameLine t p m = inline₂ := (hl₂ _ rfl).symm
        have hencloses := Block.encloses_ofMarkers hm he₁ hinside₁ hclose₁ hclash₁
        have hinline : inline₂ → inline₁ := fun hinline => hl₁ true (by simp [hline, hinline])
        refine ⟨_, q₂, e₂, inline₂, ms₂, ?_, he₂,
          Block.inside_ofMarkers hencloses hline hinline hedit hinside₂, hclose₂, hclash₂,
          fun l hl => ?_, fun hsame => ?_, ?_⟩
        · simp [Mark.marker]
        · rw [← hlayout l hl, hline]
        · rw [hsame] at hrule
          rw [← hline, sameLine_of_next hrule]
        · simpa [ended, append] using hrun

/-- What an outermost block that has ended asks of the next marker. -/
def ruleAfter : (previous? : Option Block) → LineRule
  | none => .free
  | some a => if a.isInline then .undecided else .newLine

/-- The pass between outermost blocks, behind the given one. -/
structure Between (s : Pairing) (previous? : Option Block) : Prop where
  /-- No block is open. -/
  stack : s.stack = []
  /-- The last marker is that which ended the last block. -/
  previous : s.previous? = previous?.map Block.ending
  /-- The rule is that of the last block. -/
  rule : s.rule = ruleAfter previous?

/-- An outermost block is followed by the rest of them. -/
theorem Between.ended {isInline : Bool} :
    Between (s.ended t top [] m isInline)
      (some (Block.ofMarkers t top.marker m 1 isInline)) where
  stack := rfl
  previous := by simp [Pairing.ended]
  rule := by simp [Pairing.ended, ruleAfter]

/-- Between outermost blocks an open marker is accepted. If it is on the line of the block in front, that one is
inline, and the next marker has to be on this line too. -/
theorem Between.of_step {s₁ : Pairing} {previous? : Option Block} (hs : Between s previous?)
    (hstep : step t s m = .ok s₁) : m.isEnd = false ∧ s₁.stack = [⟨m, none, []⟩] ∧
      s₁.previous? = some m ∧ s₁.closed = s.closed ∧
      ∀ a ∈ previous?, onSameLine t a.ending m → a.isInline ∧ s₁.rule = .sameLine := by
  cases previous? with
  | none =>
    obtain ⟨hm, rfl⟩ := (step_first_iff hs.stack hs.previous).1 hstep
    exact ⟨hm, rfl, rfl, rfl, by simp⟩
  | some a =>
    obtain ⟨hm, rule, hrule, rfl⟩ := (step_outermost_iff hs.stack hs.previous).1 hstep
    refine ⟨hm, rfl, rfl, rfl, ?_⟩
    rintro _ ⟨⟩ hsame
    rw [hs.rule, hsame, ruleAfter] at hrule
    cases ha : a.isInline <;> rw [ha] at hrule <;> cases hrule
    exact ⟨rfl, rfl⟩

/-- **Accepted outermost markers are well arranged.** -/
theorem outermost_of_run (n : Nat) {ms : List Marker} {previous? : Option Block}
    (hn : ms.length = n) (hs : Between s previous?) (hrun : run t s ms = .ok s')
    (hend : s'.stack = []) :
    ∃ marks, marks.map Mark.marker = ms ∧ Outermost t previous? marks ∧
      s'.closed = s.closed ++ marks := by
  induction n using Nat.strongRecOn generalizing ms s previous? with
  | ind n ih =>
    cases ms with
    | nil =>
      cases hrun
      exact ⟨[], rfl, .nil, by simp⟩
    | cons m ms =>
      obtain ⟨s₁, hstep, hrun⟩ := run_cons_iff.1 hrun
      obtain ⟨hm, hstack, hprev, hclosed, hfits⟩ := hs.of_step hstep
      obtain ⟨inner, q, e, isInline, rest, rfl, he, hinside, hclose, hclash, -, hsame, hrun⟩ :=
        exists_ended ms.length rfl hstack hprev hrun (by simp [hend])
      obtain ⟨marks, rfl, hmarks, hclosed'⟩ := ih rest.length (by simp at hn; omega) rfl
        Between.ended hrun
      refine ⟨_, ?_, .block (Block.encloses_ofMarkers hm he hinside hclose hclash) ?_ hmarks, ?_⟩
      · simp [Mark.marker]
      · intro a ha hline
        obtain ⟨hinline, hrule⟩ := hfits a ha (by simpa using hline)
        exact ⟨hinline, by simpa using hsame hrule⟩
      · simpa [Pairing.ended, append, hclosed] using hclosed'

/-! ## Well arranged markers are accepted -/

/-- The rules that markers inside a block of this layout follow as a matter of course. -/
def Lax (isInline : Bool) (rule : LineRule) : Prop :=
  ∃ rule', rule.next isInline = .ok rule'

/-- After a marker that keeps to the layout, the rule asks for no more than a block in it does. -/
theorem lax_of_next {isInline inner : Bool} {rule rule' : LineRule}
    (h : rule.next isInline = .ok rule') (hinner : isInline → inner) : Lax inner rule' := by
  cases isInline
  · cases rule <;> cases h <;> cases inner <;> exact ⟨_, rfl⟩
  · rw [hinner rfl]
    cases rule <;> cases h <;> exact ⟨_, rfl⟩

/-- After a block that keeps to the layout around it, the rule asks for that layout at most. -/
theorem lax_ruleAfter {isInline : Bool} {b : Block} (h : isInline → b.isInline) :
    Lax isInline (ruleAfter (some b)) := by
  cases isInline
  · cases hb : b.isInline <;> simp only [ruleAfter, hb] <;> exact ⟨_, rfl⟩
  · simp only [ruleAfter, h rfl]
    exact ⟨_, rfl⟩

/-- **The pass over well arranged marks inside a block** adds them to the block. -/
theorem run_inside {family : Family} {isInline : Bool} {depth : Nat} {q : Marker}
    {marks : List Mark} (h : Inside t family isInline depth p marks q) (ms : List Marker)
    (hs : s.stack = top :: outer) (hp : s.previous? = some p) (hfamily : top.marker.family = family)
    (hdepth : depth = outer.length + 2) (hlayout : ∀ l ∈ top.layout?, isInline = l)
    (hrule : Lax isInline s.rule) :
    ∃ s₁ layout?, run t s (marks.map Mark.marker ++ ms) = run t s₁ ms ∧
      s₁.stack = { top with layout?, inner := top.inner ++ marks } :: outer ∧
      s₁.previous? = some q ∧ s₁.closed = s.closed ∧ (∀ l ∈ layout?, isInline = l) ∧
      Lax isInline s₁.rule := by
  induction h generalizing s top outer ms with
  | nil => exact ⟨s, top.layout?, rfl, by simpa using hs, hp, rfl, hlayout, hrule⟩
  | @block family isInline depth p q r b inner rest hopens hends hformed hline hinline hedit
      hinner hclose hclash hrest ihInner ihRest =>
    obtain ⟨rule, hnext⟩ := hrule
    obtain ⟨s₁, hopening, hstack₁, hprev₁, hclosed₁, hrule₁⟩ : ∃ s₁, step t s b.opening = .ok s₁ ∧
        s₁.stack = ⟨b.opening, if isInline then some true else none, []⟩ ::
          { top with layout? := some isInline } :: outer ∧
        s₁.previous? = some b.opening ∧ s₁.closed = s.closed ∧ s₁.rule = rule :=
      ⟨_, (step_opening_iff hs hp hopens).2 ⟨by rw [hfamily]; exact hedit, by rwa [hline], rule,
        by rwa [hline], rfl⟩, by simp [hline], rfl, rfl, rfl⟩
    have hchild : ∀ l ∈ (if isInline then some true else none), b.isInline = l := by
      intro l hl
      cases isInline
      · cases hl
      · rw [hinline rfl]
        exact Option.some.inj hl
    obtain ⟨s₂, layout₂?, hrun₂, hstack₂, hprev₂, hclosed₂, hlayout₂, ⟨rule₂, hrule₂⟩⟩ :=
      ihInner (b.ending :: (rest.map Mark.marker ++ ms)) hstack₁ hprev₁ rfl (by simp [hdepth])
        hchild (hrule₁ ▸ lax_of_next hnext hinline)
    have hb : Block.ofMarkers t b.opening b.ending (outer.length + 2) b.isInline = b := by
      rw [← hdepth]
      exact hformed.symm
    obtain ⟨s₃, hending, hstack₃, hprev₃, hclosed₃, hrule₃⟩ : ∃ s₃, step t s₂ b.ending = .ok s₃ ∧
        s₃.stack = { top with
          layout? := some isInline
          inner := top.inner ++ .opening b :: (inner ++ [.ending b]) } :: outer ∧
        s₃.previous? = some b.ending ∧ s₃.closed = s.closed ∧ s₃.rule = ruleAfter (some b) :=
      ⟨_, (step_ending_iff hstack₂ hprev₂ hends).2 ⟨hclash, by rwa [hclose],
        ⟨rule₂, by rwa [hclose]⟩, rfl⟩, by simp [ended, append, hclose, hb], rfl,
        by simp [ended, append, hclosed₁, hclosed₂], by simp [ended, hclose, ruleAfter]⟩
    obtain ⟨s₄, layout₄?, hrun₄, hstack₄, hprev₄, hclosed₄, hlayout₄, hrule₄⟩ :=
      ihRest ms hstack₃ hprev₃ hfamily hdepth (by simp) (hrule₃ ▸ lax_ruleAfter hinline)
    refine ⟨s₄, layout₄?, ?_, ?_, hprev₄, hclosed₄.trans hclosed₃, hlayout₄, hrule₄⟩
    · rw [← hrun₄, ← run_cons_of_step hending, ← hrun₂, ← run_cons_of_step hopening]
      simp [Mark.marker]
    · simpa using hstack₄

/-- Between outermost blocks a block may be opened that fits behind the one in front. -/
theorem Between.exists_step {previous? : Option Block} {b : Block} (hs : Between s previous?)
    (hopens : b.opening.isEnd = false)
    (hfits : ∀ a ∈ previous?, onSameLine t a.ending b.opening → a.isInline ∧ b.isInline) :
    ∃ s₁, step t s b.opening = .ok s₁ ∧ s₁.stack = [⟨b.opening, none, []⟩] ∧
      s₁.previous? = some b.opening ∧ s₁.closed = s.closed ∧ Lax b.isInline s₁.rule := by
  cases previous? with
  | none =>
    refine ⟨_, (step_first_iff hs.stack hs.previous).2 ⟨hopens, rfl⟩, rfl, rfl, rfl, ?_⟩
    exact ⟨_, by rw [hs.rule]; rfl⟩
  | some a =>
    obtain ⟨rule, hrule, hlax⟩ : ∃ rule, s.rule.next (onSameLine t a.ending b.opening) = .ok rule ∧
        Lax b.isInline rule := by
      rw [hs.rule, ruleAfter]
      cases hsame : onSameLine t a.ending b.opening with
      | false => cases a.isInline <;> exact ⟨_, rfl, _, rfl⟩
      | true =>
        obtain ⟨ha, hb⟩ := hfits a rfl hsame
        rw [ha, hb]
        exact ⟨_, rfl, _, rfl⟩
    exact ⟨_, (step_outermost_iff hs.stack hs.previous).2 ⟨hopens, rule, hrule, rfl⟩, rfl, rfl, rfl,
      hlax⟩

/-- **The pass over well arranged outermost marks** adds them to the closed ones. -/
theorem run_outermost {previous? : Option Block} {marks : List Mark}
    (h : Outermost t previous? marks) (hs : Between s previous?) :
    ∃ s', run t s (marks.map Mark.marker) = .ok s' ∧ s'.stack = [] ∧
      s'.closed = s.closed ++ marks := by
  induction h generalizing s with
  | nil => exact ⟨s, rfl, hs.stack, by simp⟩
  | @block previous? b inner rest henclosed hfits hrest ih =>
    obtain ⟨q, hinside, hclose, hclash⟩ := henclosed.layout
    obtain ⟨s₁, hopening, hstack₁, hprev₁, hclosed₁, hrule₁⟩ := hs.exists_step henclosed.opens hfits
    obtain ⟨s₂, layout₂?, hrun₂, hstack₂, hprev₂, hclosed₂, hlayout₂, ⟨rule₂, hrule₂⟩⟩ :=
      run_inside hinside (b.ending :: rest.map Mark.marker) hstack₁ hprev₁ rfl rfl (by simp) hrule₁
    have hending := (step_ending_iff hstack₂ hprev₂ henclosed.ends).2 ⟨hclash, by rwa [hclose],
      ⟨rule₂, by rwa [hclose]⟩, rfl⟩
    have hb : Block.ofMarkers t b.opening b.ending 1 (onSameLine t q b.ending) = b := by
      rw [hclose]
      exact henclosed.formed.symm
    have hbetween : Between (s₂.ended t ⟨b.opening, layout₂?, [] ++ inner⟩ [] b.ending
        (onSameLine t q b.ending)) (some b) := by
      have h : Between (s₂.ended t ⟨b.opening, layout₂?, [] ++ inner⟩ [] b.ending
          (onSameLine t q b.ending)) (some (.ofMarkers t b.opening b.ending 1 _)) := .ended
      rwa [hb] at h
    obtain ⟨s', hrun, hstack, hclosed⟩ := ih hbetween
    refine ⟨s', ?_, hstack, ?_⟩
    · rw [← hrun, ← run_cons_of_step hending, ← hrun₂, ← run_cons_of_step hopening]
      simp [Mark.marker]
    · rw [hclosed]
      simp [ended, append, hb, hclosed₁, hclosed₂]

end Pairing

/-- **Markers are paired exactly if they are well arranged**, and their marks tell how. -/
theorem pairMarkers_eq_ok_iff {ms : List Marker} {marks : List Mark} :
    pairMarkers t ms = .ok marks ↔ Outermost t none marks ∧ marks.map Mark.marker = ms := by
  have hstart : Between {} none := ⟨rfl, rfl, rfl⟩
  rw [pairMarkers, bind_eq_ok_iff]
  constructor
  · rintro ⟨s', hrun, hend⟩
    cases hstack : s'.stack with
    | nil =>
      rw [hstack] at hend
      cases hend
      obtain ⟨marks, hmap, hmarks, hclosed⟩ := outermost_of_run ms.length rfl hstart hrun hstack
      rw [hclosed]
      exact ⟨hmarks, hmap⟩
    | cons top outer =>
      rw [hstack] at hend
      cases hend
  · rintro ⟨hmarks, rfl⟩
    obtain ⟨s', hrun, hstack, hclosed⟩ := run_outermost hmarks hstart
    refine ⟨s', hrun, ?_⟩
    rw [hstack, hclosed]
    rfl

end Regen
