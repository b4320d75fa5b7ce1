import Regen.Diff.Script

/-!
# Shortest edit scripts

A shortest script is found from its middle. One search runs forward from the beginnings of the two
lists and one backward from their ends, and every round allows each of them one deletion or insertion
more. A search keeps, for each *diagonal*, how far into the old list it got; the diagonal is how much
further that is than it got into the new list. Where the two searches meet, both lists are cut, and
what lies on either side of the cut is compared in the same way.

The searches go through the diagonals of a round from the highest to the lowest, and of two ways to
get equally far the one that deletes wins. This is what decides between scripts of equal length.
-/

namespace Regen.Diff

variable {α : Type} [DecidableEq α]

/-- How many items two lists have in common at their front. -/
def agreement : List α → List α → Nat
  | a :: as, b :: bs => if a = b then agreement as bs + 1 else 0
  | _, _ => 0

/-- How far a search got on one diagonal. -/
structure Reach where
  /-- The diagonal: how much further the search got in the old list than in the new one. -/
  diagonal : Int
  /-- How far into the old list the last deletion or insertion led. -/
  start : Nat
  /-- How far the common items behind it lead. -/
  stop : Nat

/-- The reaches of a round, from the highest diagonal to the lowest. -/
abbrev Frontier := List Reach

/-- How far into the old list a round starts, on each of its diagonals, from how far the round before
it got. -/
def starts : List Nat → List Nat
  | [] => [0]
  | upper :: rest => (upper + 1) :: between upper rest
where
  /-- The starts below the diagonal on which the round before got as far as `upper`. -/
  between (upper : Nat) : List Nat → List Nat
    | [] => [upper]
    | lower :: rest => (if lower < upper then upper else lower + 1) :: between lower rest

/-- The round of a search after the one that ended in a frontier. -/
def advance (old new : List α) (before : Frontier) : Frontier :=
  (starts (before.map Reach.stop)).mapIdx fun i (start : Nat) =>
    let diagonal := (before.length : Int) - 2 * i
    let inNew := ((start : Int) - diagonal).toNat
    { diagonal, start, stop := start + agreement (old.drop start) (new.drop inNew) }

/-- How far a search got on a diagonal, if the round has that diagonal. -/
def Frontier.stopOn? (f : Frontier) (diagonal : Int) : Option Nat :=
  (f.find? (·.diagonal = diagonal)).map Reach.stop

/-- The first reach of a frontier that meets the other search, which ran from the other ends. -/
def meeting? (old new : List α) (f other : Frontier) : Option Reach :=
  f.find? fun r =>
    match other.stopOn? ((old.length : Int) - new.length - r.diagonal) with
    | some stop => old.length ≤ r.stop + stop
    | none => false

/-- Where the two lists are cut, searching for a number of rounds from two frontiers. -/
def cut? (old new : List α) : (rounds : Nat) → (ahead behind : Frontier) → Option (Nat × Nat)
  | 0, _, _ => none
  | rounds + 1, ahead, behind =>
    let ahead := advance old new ahead
    match meeting? old new ahead behind with
    | some r => some (r.start, (r.start - r.diagonal).toNat)
    | none =>
      let behind := advance old.reverse new.reverse behind
      match meeting? old new behind ahead with
      | some r => some (old.length - r.stop, new.length - (r.stop - r.diagonal).toNat)
      | none => cut? old new rounds ahead behind

/-- The pieces of two lists on either side of the cut. Pieces are of use only if they are smaller than
the lists. -/
def pieces? (old new : List α) : Option ((List α × List α) × (List α × List α)) :=
  match cut? old new ((old.length + new.length + 1) / 2 + 1) [] [] with
  | none => none
  | some (i, j) =>
    let front := (old.take i, new.take j)
    let back := (old.drop i, new.drop j)
    if front.1.length + front.2.length < old.length + new.length ∧
        back.1.length + back.2.length < old.length + new.length then some (front, back)
    else none

theorem pieces?_smaller {old new : List α} {front back : List α × List α}
    (h : pieces? old new = some (front, back)) :
    front.1.length + front.2.length < old.length + new.length ∧
      back.1.length + back.2.length < old.length + new.length := by
  unfold pieces? at h
  split at h
  · exact absurd h (by simp)
  · dsimp only at h
    split at h
    · rename_i smaller
      obtain ⟨rfl, rfl⟩ := Prod.mk.inj (Option.some.inj h)
      exact smaller
    · exact absurd h (by simp)

/-- A shortest script from one list to the other. -/
def shortest (old new : List α) : Script α :=
  let common := agreement old new
  let restOld := old.drop common
  let restNew := new.drop common
  let tail := agreement restOld.reverse restNew.reverse
  let coreOld := restOld.take (restOld.length - tail)
  let coreNew := restNew.take (restNew.length - tail)
  let core :=
    if coreOld.isEmpty || coreNew.isEmpty then Script.delete coreOld ++ Script.insert coreNew
    else
      match h : pieces? coreOld coreNew with
      | some (front, back) =>
        have := pieces?_smaller h
        shortest front.1 front.2 ++ shortest back.1 back.2
      | none => Script.delete coreOld ++ Script.insert coreNew
  Script.keep (old.take common) ++ core ++ Script.keep (restOld.drop (restOld.length - tail))
termination_by old.length + new.length
decreasing_by
  all_goals
    simp only [coreOld, coreNew, restOld, restNew, List.length_take, List.length_drop] at this
    omega

end Regen.Diff
