import Regen.Text.Basic

/-!
# Trimming

Names are compared without the white space around them, where white space is every character
with the Unicode property `White_Space`. Padding is narrower: one space on either side.
-/

namespace Regen.Text

/-- The code points with the Unicode property `White_Space`. -/
def whiteSpace : List Nat :=
  [0x09, 0x0A, 0x0B, 0x0C, 0x0D, 0x20, 0x85, 0xA0, 0x1680,
   0x2000, 0x2001, 0x2002, 0x2003, 0x2004, 0x2005, 0x2006, 0x2007, 0x2008, 0x2009, 0x200A,
   0x2028, 0x2029, 0x202F, 0x205F, 0x3000]

/-- Whether a character counts as white space. -/
def isWhiteSpace (c : Char) : Bool := whiteSpace.contains c.toNat

/-- Whether these bytes are one white space character. -/
def isWhiteSpaceBytes (c : Text) : Bool :=
  whiteSpace.any fun n => String.utf8EncodeChar (Char.ofNat n) == c

/-- The text without white space at its ends. -/
def trim (t : Text) : Text :=
  let front := t.chars.dropWhile isWhiteSpaceBytes
  (front.reverse.dropWhile isWhiteSpaceBytes).reverse.flatten

/-- The text without one space at its front, if it has one. -/
def dropPadding : Text → Text
  | [] => []
  | b :: rest => if b = space then rest else b :: rest

/-- The text without one space at its end, if it has one. -/
def dropEndPadding (t : Text) : Text :=
  if t.getLast? = some space then t.dropLast else t

/-- The text without one space of padding on each side. -/
def unpad (t : Text) : Text := dropEndPadding (dropPadding t)

end Regen.Text
