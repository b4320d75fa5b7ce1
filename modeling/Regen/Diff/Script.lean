/-!
# Edit scripts

An edit script turns one list into another one. It is a row of runs: items that both lists have, items
of the old list that go, and items of the new list that come. Leaving out the last kind gives the old
list back, and leaving out the second kind gives the new one.
-/

namespace Regen.Diff

variable {α : Type}

/-- Items that are treated alike. -/
inductive Run (α : Type) where
  /-- Items of both lists. -/
  | keep (items : List α)
  /-- Items of the old list only. -/
  | delete (items : List α)
  /-- Items of the new list only. -/
  | insert (items : List α)
  deriving DecidableEq

/-- A row of runs. -/
abbrev Script (α : Type) := List (Run α)

namespace Run

/-- What a run has of the old list. -/
def old : Run α → List α
  | .keep items => items
  | .delete items => items
  | .insert _ => []

/-- What a run has of the new list. -/
def new : Run α → List α
  | .keep items => items
  | .delete _ => []
  | .insert items => items

end Run

namespace Script

/-- The old list. -/
def old (s : Script α) : List α := s.flatMap Run.old

/-- The new list. -/
def new (s : Script α) : List α := s.flatMap Run.new

/-- The script that keeps these items. -/
def keep (items : List α) : Script α := if items.isEmpty then [] else [.keep items]

/-- The script that deletes these items. -/
def delete (items : List α) : Script α := if items.isEmpty then [] else [.delete items]

/-- The script that inserts these items. -/
def insert (items : List α) : Script α := if items.isEmpty then [] else [.insert items]

/-- The script with one more kept item in front, which joins a run that is there. -/
def keepFirst (item : α) : Script α → Script α
  | .keep items :: rest => .keep (item :: items) :: rest
  | s => .keep [item] :: s

end Script

end Regen.Diff
