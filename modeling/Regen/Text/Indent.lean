import Regen.Text.Basic

/-!
# Indentation

`indent` writes a prefix in front of every line of a text and `dedent` takes up to a number of
leading blanks off every line. For a prefix of spaces and tabs the second undoes the first.
-/

namespace Regen.Text

/-- Takes up to `column` leading spaces and tabs off one line. -/
def dedentLine (column : Nat) (line : Text) : Text :=
  line.drop ((line.take column).takeWhile isIndent).length

/-- Takes up to `column` leading spaces and tabs off every line. -/
def dedent (column : Nat) (t : Text) : Text :=
  ofLines ((lines t).map (dedentLine column))

/-- Writes `margin` in front of every line. -/
def indent (margin : Text) (t : Text) : Text :=
  margin ++ t.withNewline (newline :: margin)

end Regen.Text
