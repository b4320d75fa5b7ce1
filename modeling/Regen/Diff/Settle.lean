import Regen.Diff.Script

/-!
# Settling insertions

Between the same two lists there can be several shortest scripts, for an insertion can often be moved:
if the kept item in front of it is also the last item inserted, the insertion may as well start one
item earlier, and likewise at its other end. Settling a script moves each insertion up as far as it
goes and then down as far as it goes. On its way it takes along the insertions that it meets, so that
insertions which can be put together are, and it passes deletions, so that these come first.

Deletions are gathered before, and do not move over kept items.
-/

namespace Regen.Diff

variable {α : Type} [DecidableEq α]

/-! ## Gathering deletions -/

/-- Puts all that is deleted between two runs of kept items into one run behind the insertions that
stand there too. `deleted` has been read already, and so has what stands before it. -/
def gather (deleted : List α) : Script α → Script α
  | [] => Script.delete deleted
  | .delete items :: rest => gather (deleted ++ items) rest
  | .insert items :: rest => .insert items :: gather deleted rest
  | .keep items :: rest => Script.delete deleted ++ .keep items :: gather [] rest

/-! ## Moving one insertion -/

/-- An insertion on its way through a script. -/
structure Moving (α : Type) where
  /-- The runs in front of it, the nearest first. -/
  above : Script α
  /-- The items inserted. -/
  block : List α
  /-- The runs behind it. -/
  below : Script α

/-- Moves an insertion up over kept items, which are given from the last to the first: the items that
it did not pass, again reversed, the items inserted, and the runs behind it. -/
def rise : List α → List α → Script α → List α × List α × Script α
  | [], block, below => ([], block, below)
  | item :: rest, block, below =>
    if block.getLast? = some item then rise rest (item :: block.dropLast) (below.keepFirst item)
    else (item :: rest, block, below)

/-- Moves an insertion up as far as it goes. -/
def raise : (above : Script α) → (block : List α) → (below : Script α) → Moving α
  | [], block, below => ⟨[], block, below⟩
  | .insert items :: above, block, below => raise above (items ++ block) below
  | .delete items :: above, block, below => raise above block (.delete items :: below)
  | .keep items :: above, block, below =>
    match rise items.reverse block below with
    | ([], block, below) => raise above block below
    | (rest, block, below) => ⟨.keep rest.reverse :: above, block, below⟩

/-- Moves an insertion down over kept items: the items passed, the items inserted, and the items that
it did not pass. -/
def sink : List α → List α → List α × List α × List α
  | [], block => ([], block, [])
  | item :: rest, block =>
    if block.head? = some item then
      let (passed, block, left) := sink rest (block.drop 1 ++ [item])
      (item :: passed, block, left)
    else ([], block, item :: rest)

/-- Moves an insertion down as far as it goes. -/
def lower : (above : Script α) → (block : List α) → (below : Script α) → Moving α
  | above, block, [] => ⟨above, block, []⟩
  | above, block, .insert items :: below => lower above (block ++ items) below
  | above, block, .delete items :: below => lower (.delete items :: above) block below
  | above, block, .keep items :: below =>
    let (passed, block, left) := sink items block
    let above := (Script.keep passed) ++ above
    if left.isEmpty then lower above block below else ⟨above, block, .keep left :: below⟩

/-- Moves an insertion to where it belongs. -/
def Moving.settle (m : Moving α) : Moving α :=
  let m := raise m.above m.block m.below
  lower m.above m.block m.below

/-! ## Moving all of them -/

/-- How many runs of insertions a script has. -/
def insertions : Script α → Nat
  | [] => 0
  | .insert _ :: rest => insertions rest + 1
  | .delete _ :: rest => insertions rest
  | .keep _ :: rest => insertions rest

omit [DecidableEq α] in
theorem insertions_keepFirst (item : α) (s : Script α) :
    insertions (s.keepFirst item) = insertions s := by
  unfold Script.keepFirst
  split <;> rfl

theorem insertions_rise (items block : List α) (below : Script α) :
    insertions (rise items block below).2.2 = insertions below := by
  induction items generalizing block below with
  | nil => rfl
  | cons item rest ih =>
    unfold rise
    split
    · rw [ih, insertions_keepFirst]
    · rfl

theorem insertions_raise (above : Script α) (block : List α) (below : Script α) :
    insertions (raise above block below).below = insertions below := by
  induction above generalizing block below with
  | nil => rfl
  | cons run above ih =>
    cases run with
    | insert items => rw [raise, ih]
    | delete items => rw [raise, ih, insertions]
    | keep items =>
      have h := insertions_rise items.reverse block below
      unfold raise
      split <;> simp_all

theorem insertions_lower (above : Script α) (block : List α) (below : Script α) :
    insertions (lower above block below).below ≤ insertions below := by
  induction below generalizing above block with
  | nil => simp [lower]
  | cons run below ih =>
    cases run with
    | insert items => rw [lower, insertions]; exact Nat.le_succ_of_le (ih _ _)
    | delete items => rw [lower, insertions]; exact ih _ _
    | keep items =>
      simp only [lower, insertions]
      split
      · exact ih _ _
      · exact Nat.le_refl _

theorem insertions_settle (m : Moving α) : insertions m.settle.below ≤ insertions m.below := by
  unfold Moving.settle
  rw [← insertions_raise m.above m.block m.below]
  exact insertions_lower _ _ _

/-- Settles the insertions of a script one after the other. The runs in front of it, the nearest
first, have been settled already. -/
def settleFrom (above : Script α) : (below : Script α) → Script α
  | [] => above.reverse
  | .insert items :: below =>
    let m := Moving.settle ⟨above, items, below⟩
    settleFrom (.insert m.block :: m.above) m.below
  | .delete items :: below => settleFrom (.delete items :: above) below
  | .keep items :: below => settleFrom (.keep items :: above) below
termination_by below => (insertions below, below.length)
decreasing_by
  · exact Prod.Lex.left _ _ (Nat.lt_succ_of_le (insertions_settle ⟨above, items, below⟩))
  · exact Prod.Lex.right _ (Nat.lt_succ_self _)
  · exact Prod.Lex.right _ (Nat.lt_succ_self _)

/-- The script with its deletions gathered and its insertions settled. -/
def settle (s : Script α) : Script α := settleFrom [] (gather [] s)

end Regen.Diff
