/-!
# Emphasis

Emphasis is written with control sequences for terminals. Where there is none, texts stay as they are.
-/

namespace Regen.Command

/-- Whether output is emphasised. -/
structure Style where
  /-- Whether it is. -/
  enabled : Bool

namespace Style

/-- A text between the sequences with these numbers. -/
def between (style : Style) (on off : Nat) (s : String) : String :=
  if style.enabled then s!"\x1b[{on}m{s}\x1b[{off}m" else s

/-- A text in bold letters. -/
def bold (style : Style) : String → String := style.between 1 0

/-- A red text. -/
def red (style : Style) : String → String := style.between 31 39

/-- A green text. -/
def green (style : Style) : String → String := style.between 32 39

/-- A yellow text. -/
def yellow (style : Style) : String → String := style.between 33 39

end Style

end Regen.Command
