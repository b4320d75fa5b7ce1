import Regen.Diff.Settle
import Regen.Diff.Shortest
import Regen.Text.Basic

/-!
# Differences between texts

Two texts are compared line by line. A line ends in a line feed, a carriage return, or both, and its
end belongs to it.
-/

namespace Regen

namespace Text

/-- The lines of a text with their ends. Only the last one can lack an end. -/
def endedLines : Text → List Text
  | [] => []
  | b :: rest =>
    if b = newline ∨ (b = carriageReturn ∧ rest.head? ≠ some newline) then [b] :: endedLines rest
    else
      match endedLines rest with
      | [] => [[b]]
      | line :: more => (b :: line) :: more

/-- Whether a line has an end. -/
def isEnded (line : Text) : Bool :=
  line.getLast? = some newline || line.getLast? = some carriageReturn

end Text

namespace Diff

/-- The script that turns the lines of one text into those of the other. -/
def ofTexts (old new : Text) : Script Text :=
  settle (shortest old.endedLines new.endedLines)

end Diff

end Regen
