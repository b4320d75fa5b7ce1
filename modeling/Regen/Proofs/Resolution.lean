import Regen.Proofs.Carrying
import Regen.Proofs.Frame

/-!
# What a marker is resolved to

Resolving a marker is asking for what it yields – the edit of its name, or its header rendered – and
regenerating that. The steps are told apart here, so that a successful resolution can be taken apart
and put together again: `resolve_eq_ok_iff` for any marker, `yielded_edit_eq_ok_iff` and
`yielded_generation_eq_ok_iff` for what the two families yield. A yield without markers is regenerated
to itself (`evaluate_of_plain`), and then the resolution depends on nothing but what is yielded.
-/

namespace Regen

namespace Run

variable {run : Run} {source : Text} {pool : Pool} {m : Marker} {c c' : List Text}

/-- An edit is claimed if it has not been asked for before. -/
theorem claim_eq_ok_iff {u? : Option Text} :
    (run.claim source pool m).run c = .ok (u?, c') ↔
      m.name ∉ c ∧ c' = m.name :: c ∧
        u? = (run.overrides.lookup m.name <|> pool.content m.name) := by
  rw [claim, Claiming.run_bind_eq_ok_iff]
  simp only [Claiming.run_get_eq_ok_iff]
  constructor
  · rintro ⟨_, _, ⟨rfl, rfl⟩, h⟩
    split at h
    · cases h
    · rename_i hnew
      obtain ⟨_, _, hset, hpure⟩ := Claiming.run_bind_eq_ok_iff.1 h
      obtain rfl := Claiming.run_set_eq_ok_iff.1 hset
      obtain ⟨rfl, rfl⟩ := Claiming.run_pure_eq_ok_iff.1 hpure
      exact ⟨hnew, rfl, rfl⟩
  · rintro ⟨hnew, rfl, rfl⟩
    refine ⟨c, c, ⟨rfl, rfl⟩, ?_⟩
    rw [if_neg hnew]
    rfl

/-- An edit marker yields the edit of its name, which must not have been asked for before. -/
theorem yielded_edit_eq_ok_iff (hm : m.family = .edit) {u? : Option Text} :
    (run.yielded source pool m).run c = .ok (u?, c') ↔
      m.name ∉ c ∧ c' = m.name :: c ∧
        u? = (run.overrides.lookup m.name <|> pool.content m.name) := by
  rw [yielded, hm]
  exact claim_eq_ok_iff

/-- A generation marker yields its header rendered, if there is anything in it. -/
theorem yielded_generation_eq_ok_iff (hm : m.family = .generation) {u? : Option Text} :
    (run.yielded source pool m).run c = .ok (u?, c') ↔
      c' = c ∧ if m.headerEmpty then u? = none else ∃ r, run.render m.header = .ok r ∧ u? = some r := by
  rw [yielded, hm]
  dsimp only
  split
  · rw [Claiming.run_pure_eq_ok_iff, eq_comm, and_comm, eq_comm]
  · cases run.render m.header with
    | ok r =>
      dsimp only
      rw [Claiming.run_pure_eq_ok_iff]
      constructor
      · rintro ⟨rfl, rfl⟩
        exact ⟨rfl, r, rfl, rfl⟩
      · rintro ⟨rfl, _, ⟨⟩, rfl⟩
        exact ⟨rfl, rfl⟩
    | error e =>
      constructor
      · rintro ⟨⟩
      · rintro ⟨-, _, ⟨⟩, -⟩

/-- What is made of a regenerated text: it loses the line feed at its end, and an empty one counts
as nothing if markers are removed. -/
def finish (run : Run) (t : Text) : Option Text :=
  if run.removeMarkers && (dropFinalNewline t).isEmpty then none else some (dropFinalNewline t)

/-- What is yielded as nothing or as the empty text is taken as it is, and everything else is
regenerated. -/
def settle (run : Run) (evaluate : Evaluator) (source : Text) (pool : Pool) (m : Marker) :
    Option Text → Claiming (Option Text)
  | none => return none
  | some t => if t.isEmpty then return some [] else run.finish <$> evaluate source m pool t

/-- **A marker is resolved** to what is made of its yield. -/
theorem resolve_eq_ok_iff {evaluate : Evaluator} {x? : Option Text} :
    (run.resolve evaluate source pool m).run c = .ok (x?, c') ↔
      ∃ u? c₁, (run.yielded source pool m).run c = .ok (u?, c₁) ∧
        (run.settle evaluate source pool m u?).run c₁ = .ok (x?, c') := by
  rw [resolve, Claiming.run_bind_eq_ok_iff]
  refine exists_congr fun u? => exists_congr fun c₁ => and_congr_right fun _ => ?_
  cases u? with
  | none => rfl
  | some t =>
    rw [settle]
    dsimp only
    split
    · rfl
    · -- a failure is only told apart by its trail
      have hcatch : ∀ r, (tryCatch (evaluate source m pool t) fun e =>
            throw (e.within (.ofMarker source m)) : Claiming Text).run c₁ = .ok r ↔
          (evaluate source m pool t).run c₁ = .ok r := by
        intro r
        show tryCatch ((evaluate source m pool t).run c₁) _ = _ ↔ _
        cases (evaluate source m pool t).run c₁ with
        | ok r' => rfl
        | error e => exact ⟨(fun h => by cases h), (fun h => by cases h)⟩
      rw [Claiming.run_bind_eq_ok_iff, map_eq_pure_bind, Claiming.run_bind_eq_ok_iff]
      simp only [hcatch]
      rfl

/-- A yield that is not empty settles to what is made of the regenerated text. -/
theorem settle_some_eq_ok_iff {evaluate : Evaluator} {u : Text} {x? : Option Text} (hu : u ≠ []) :
    (run.settle evaluate source pool m (some u)).run c = .ok (x?, c') ↔
      ∃ r, (evaluate source m pool u).run c = .ok (r, c') ∧ x? = run.finish r := by
  rw [settle, if_neg (by simpa using hu), map_eq_pure_bind, Claiming.run_bind_eq_ok_iff]
  constructor
  · rintro ⟨r, _, hevaluate, hfinish⟩
    obtain ⟨rfl, rfl⟩ := Claiming.run_pure_eq_ok_iff.1 hfinish
    exact ⟨r, hevaluate, rfl⟩
  · rintro ⟨r, hevaluate, rfl⟩
    exact ⟨r, c', hevaluate, rfl⟩

/-- **A text is evaluated** by reading it and regenerating its blocks, with its edits beneath those at hand. -/
theorem evaluate_succ_eq_ok_iff {levels : Nat} {t r : Text} :
    (run.evaluate (levels + 1) source m pool t).run c = .ok (r, c') ↔
      ∃ d, Document.parse run.settings t = .ok d ∧
        (run.directive (run.evaluate levels) (pool.beneath d.edits) d).run c = .ok (r, c') := by
  rw [evaluate, Claiming.run_bind_eq_ok_iff]
  simp only [Claiming.run_lift_eq_ok_iff]
  constructor
  · rintro ⟨d, _, ⟨hd, rfl⟩, hdirective⟩
    exact ⟨d, hd, hdirective⟩
  · rintro ⟨d, hd, hdirective⟩
    exact ⟨d, c, ⟨hd, rfl⟩, hdirective⟩

/-- **A yield that is not empty is regenerated** a level further down. -/
theorem exists_directive_of_settle {levels : Nat} {u : Text} {x? : Option Text} (hu : u ≠ [])
    (h : (run.settle (run.evaluate levels) source pool m (some u)).run c = .ok (x?, c')) :
    ∃ below d r, levels = below + 1 ∧ Document.parse run.settings u = .ok d ∧
      (run.directive (run.evaluate below) (pool.beneath d.edits) d).run c = .ok (r, c') := by
  obtain ⟨r, hevaluate, -⟩ := (settle_some_eq_ok_iff hu).1 h
  cases levels with
  | zero => cases hevaluate
  | succ below =>
    obtain ⟨d, hd, hdirective⟩ := evaluate_succ_eq_ok_iff.1 hevaluate
    exact ⟨below, d, r, rfl, hd, hdirective⟩

/-! ## Plain texts -/

/-- A plain text is read as it is. -/
theorem parse_of_plain {s : Settings} {t : Text} (hs : Document.Usable s) (ht : t.Plain s) :
    Document.parse s t = .ok { source := t, marks := [], edits := [] } := by
  exact Document.parse_eq_ok_iff.2 ⟨hs, ⟨Lexeme.ofText t, Lexeme.lexed_ofText_iff.2 ht, Lexeme.textOf_ofText s t,
    Lexeme.markersFrom_ofText ..⟩, .nil, List.nodup_nil, rfl, rfl⟩

/-- A plain text is regenerated to itself, if that is not too deeply nested. -/
theorem evaluate_of_plain {levels : Nat} {t : Text} {r : Text × List Text}
    (hs : Document.Usable run.settings) (ht : t.Plain run.settings) :
    (run.evaluate levels source m pool t).run c = .ok r ↔ levels ≠ 0 ∧ r = (t, c) := by
  cases levels with
  | zero =>
    simp only [ne_eq, not_true_eq_false, false_and, iff_false]
    rintro ⟨⟩
  | succ levels =>
    rw [evaluate, parse_of_plain hs ht]
    show Except.ok (t, c) = Except.ok r ↔ _
    simp [eq_comm]

/-- What a plain yield is resolved to. -/
def plain (run : Run) (u? : Option Text) : Option Text :=
  u?.bind fun u => if u.isEmpty then some [] else run.finish u

/-- Where markers are kept, a plain yield only loses the line feed at its end. -/
theorem plain_eq_map (h : run.removeMarkers = false) (u? : Option Text) :
    run.plain u? = u?.map dropFinalNewline := by
  rcases u? with _ | _ | ⟨b, u⟩
  · rfl
  · rfl
  · simp [plain, finish, h]

/-- **A plain yield settles** wherever it is asked for, if nothing is too deeply nested. -/
theorem settle_of_plain {levels : Nat} {u? x? : Option Text} (hs : Document.Usable run.settings)
    (hu : ∀ u ∈ u?, u.Plain run.settings) :
    (run.settle (run.evaluate levels) source pool m u?).run c = .ok (x?, c') ↔
      c' = c ∧ x? = run.plain u? ∧ ∀ u ∈ u?, u ≠ [] → levels ≠ 0 := by
  have hpure : ∀ {y? : Option Text}, y? = run.plain u? → (∀ u ∈ u?, u = []) →
      ((pure y? : Claiming (Option Text)).run c = .ok (x?, c') ↔
        c' = c ∧ x? = run.plain u? ∧ ∀ u ∈ u?, u ≠ [] → levels ≠ 0) := by
    rintro _ rfl hempty
    rw [Claiming.run_pure_eq_ok_iff]
    exact ⟨fun h => ⟨h.2.symm, h.1.symm, fun u hu hne => absurd (hempty u hu) hne⟩,
      fun h => ⟨h.2.1.symm, h.1.symm⟩⟩
  cases u? with
  | none => exact hpure rfl (by simp)
  | some u =>
    cases u with
    | nil => exact hpure rfl (by simp)
    | cons b u =>
      simp only [settle_some_eq_ok_iff (List.cons_ne_nil b u), evaluate_of_plain hs (hu _ rfl)]
      constructor
      · rintro ⟨_, ⟨hlevels, ⟨⟩⟩, rfl⟩
        exact ⟨rfl, rfl, by simpa using hlevels⟩
      · rintro ⟨rfl, rfl, hlevels⟩
        exact ⟨_, ⟨hlevels _ rfl (List.cons_ne_nil b u), rfl⟩, rfl⟩

/-! ## Alike markers -/

/-- **Alike markers yield the same** wherever they stand, if their edits have the same body. -/
theorem yielded_of_alike {source' : Text} {pool' : Pool} {m' : Marker} {u? : Option Text}
    (halike : m.Alike m') (hpool : m.family = .edit → pool'.content m.name = pool.content m.name)
    (h : (run.yielded source pool m).run c = .ok (u?, c')) :
    (run.yielded source' pool' m').run c = .ok (u?, c') := by
  cases hm : m.family with
  | edit =>
    rw [yielded_edit_eq_ok_iff (halike.family.trans hm), halike.name, hpool hm]
    exact (yielded_edit_eq_ok_iff hm).1 h
  | generation =>
    rw [yielded_generation_eq_ok_iff (halike.family.trans hm), halike.headerEmpty, halike.header]
    exact (yielded_generation_eq_ok_iff hm).1 h

/-- **Alike markers with plain yields are resolved alike.** -/
theorem resolve_of_alike {levels : Nat} {source' : Text} {pool' : Pool} {m' : Marker}
    {x? : Option Text} (hs : Document.Usable run.settings) (halike : m.Alike m')
    (hpool : m.family = .edit → pool'.content m.name = pool.content m.name)
    (hplain : ∀ u?, (∃ c₁, (run.yielded source pool m).run c = .ok (u?, c₁)) →
      ∀ u ∈ u?, u.Plain run.settings)
    (h : (run.resolve (run.evaluate levels) source pool m).run c = .ok (x?, c')) :
    (run.resolve (run.evaluate levels) source' pool' m').run c = .ok (x?, c') := by
  obtain ⟨u?, c₁, hyield, hsettle⟩ := resolve_eq_ok_iff.1 h
  have hu := hplain u? ⟨c₁, hyield⟩
  exact resolve_eq_ok_iff.2 ⟨u?, c₁, yielded_of_alike halike hpool hyield,
    (settle_of_plain hs hu).2 ((settle_of_plain hs hu).1 hsettle)⟩

/-- Resolutions that agree marker by marker give the same contents. -/
theorem contents_of_forall₂ {resolve resolve' : Marker → Claiming (Option Text)} {bs bs' : List Block}
    {cs : List (Option Text)}
    (hbs : List.Forall₂ (fun b b' => ∀ c r, (resolve b.opening).run c = .ok r →
      (resolve' b'.opening).run c = .ok r) bs bs')
    (h : (contents resolve bs).run c = .ok (cs, c')) :
    (contents resolve' bs').run c = .ok (cs, c') := by
  induction hbs generalizing c cs with
  | nil => exact h
  | cons hb _ ih =>
    obtain ⟨content?, c₁, cs', hcontent, hcs, rfl⟩ := contents_cons_eq_ok_iff.1 h
    exact contents_cons_eq_ok_iff.2 ⟨content?, c₁, cs', hb _ _ hcontent, ih hcs, rfl⟩

/-- What holds of every resolution holds of the contents. -/
theorem forall_mem_zip_contents {resolve : Marker → Claiming (Option Text)} {bs : List Block}
    {cs : List (Option Text)} {P : Block → Option Text → Prop}
    (hP : ∀ b ∈ bs, ∀ c x? c', (resolve b.opening).run c = .ok (x?, c') → P b x?)
    (h : (contents resolve bs).run c = .ok (cs, c')) : ∀ p ∈ bs.zip cs, P p.1 p.2 := by
  induction bs generalizing c cs with
  | nil => simp
  | cons b bs ih =>
    obtain ⟨content?, c₁, cs', hcontent, hcs, rfl⟩ := contents_cons_eq_ok_iff.1 h
    rw [List.zip_cons_cons, List.forall_mem_cons]
    exact ⟨hP b (by simp) _ _ _ hcontent, ih (fun b' hb' => hP b' (by simp [hb'])) hcs⟩

end Run

end Regen
