import Regen.Pool

/-!
# Computations that succeed

Reading and generating stop at the first failure. A sequence of such computations succeeds exactly
if each of them does on what the one before it answered, and these lemmas take a successful run
apart into its parts.
-/

namespace Regen

variable {ε α β : Type}

/-- A sequence succeeds if both parts do. -/
theorem bind_eq_ok_iff {x : Except ε α} {f : α → Except ε β} {b : β} :
    (x >>= f) = .ok b ↔ ∃ a, x = .ok a ∧ f a = .ok b := by
  cases x with
  | ok a => simp [bind, Except.bind]
  | error e => simp [bind, Except.bind]

namespace Claiming

/-- A sequence of claiming computations succeeds if both parts do, the second with the names that
the first one leaves. -/
theorem run_bind_eq_ok_iff {x : Claiming α} {f : α → Claiming β} {c c' : List Text} {b : β} :
    (x >>= f).run c = .ok (b, c') ↔
      ∃ a c₁, x.run c = .ok (a, c₁) ∧ (f a).run c₁ = .ok (b, c') := by
  rw [StateT.run_bind, bind_eq_ok_iff]
  exact Prod.exists

/-- An answer leaves the names as they are. -/
@[simp] theorem run_pure_eq_ok_iff {a b : α} {c c' : List Text} :
    (pure a : Claiming α).run c = .ok (b, c') ↔ a = b ∧ c = c' := by
  rw [StateT.run_pure, ← Prod.mk.injEq]
  exact Iff.of_eq (Except.ok.injEq ..)

/-- A computation that claims nothing leaves the names as they are. -/
theorem run_lift_eq_ok_iff {x : Outcome α} {a : α} {c c' : List Text} :
    (liftM x : Claiming α).run c = .ok (a, c') ↔ x = .ok a ∧ c = c' := by
  rw [show (liftM x : Claiming α).run c = x >>= fun a => .ok (a, c) from rfl, bind_eq_ok_iff]
  constructor
  · rintro ⟨a, hx, ⟨⟩⟩
    exact ⟨hx, rfl⟩
  · rintro ⟨hx, rfl⟩
    exact ⟨a, hx, rfl⟩

/-- The names asked for so far. -/
theorem run_get_eq_ok_iff {a c c' : List Text} :
    (get : Claiming (List Text)).run c = .ok (a, c') ↔ a = c ∧ c' = c := by
  constructor
  · rintro ⟨⟩
    exact ⟨rfl, rfl⟩
  · rintro ⟨rfl, rfl⟩
    rfl

/-- The names are set to others. -/
theorem run_set_eq_ok_iff {a : PUnit} {names c c' : List Text} :
    (set names : Claiming PUnit).run c = .ok (a, c') ↔ c' = names := by
  constructor
  · rintro ⟨⟩
    rfl
  · rintro rfl
    rfl

end Claiming

end Regen
