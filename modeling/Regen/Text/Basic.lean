/-!
# Texts

A text is the list of its UTF-8 bytes, and every offset in this library counts bytes from the
start of a text. Slices are `List.extract`, which clamps its bounds, so no operation can fall
outside a text; that slices fall between characters is a property of the offsets handed to
them, and only `Text.toCharStart` repairs an offset that does not.

Characters matter in two places only: columns shown to a reader count them, and names are
trimmed of white space beyond ASCII. Both go through the split into characters, `Text.chars`,
which needs nothing but the distinction between leading and continuation bytes.
-/

namespace Regen

/-- A text as its UTF-8 bytes. -/
abbrev Text := List UInt8

namespace Text

instance : LawfulBEq Text := inferInstance

/-! ## Bytes -/

/-- The line feed, which ends a line. -/
def newline : UInt8 := 0x0A

/-- The carriage return, which some files write before each line feed. -/
def carriageReturn : UInt8 := 0x0D

/-- The space, which pads headers and inline bodies. -/
def space : UInt8 := 0x20

/-- The horizontal tab, the one byte that an indentation keeps as it is. -/
def tab : UInt8 := 0x09

/-- The ASCII bytes that separate words: space, tab, line feed, carriage return, vertical tab
and form feed. -/
def isBlank (b : UInt8) : Bool :=
  b == space || b == tab || b == newline || b == carriageReturn || b == 0x0B || b == 0x0C

/-- The bytes that can indent a line. -/
def isIndent (b : UInt8) : Bool := b == space || b == tab

/-- A byte inside a character, never its first. -/
def isContinuation (b : UInt8) : Bool := 0x80 ≤ b && b < 0xC0

/-! ## Strings -/

/-- The bytes of a string. -/
def ofString (s : String) : Text := s.toUTF8.data.toList

instance : Coe String Text := ⟨ofString⟩

/-- The string with these bytes, if they are UTF-8. -/
def toString? (t : Text) : Option String := String.fromUTF8? ⟨t.toArray⟩

/-- The string with these bytes, for use in messages; bytes that are no UTF-8 show as nothing. -/
def shown (t : Text) : String := (toString? t).getD ""

/-- Whether the bytes form a text at all. -/
def isUTF8 (t : Text) : Bool := (toString? t).isSome

/-! ## Characters -/

/-- The characters of a text, each as its bytes. Continuation bytes with no leading byte in
front of them, which no UTF-8 text has, form a piece of their own. -/
def chars (t : Text) : List Text :=
  match t.foldr gather ([], []) with
  | ([], cs) => cs
  | (loose, cs) => loose :: cs
where
  /-- Puts one byte in front of the continuation bytes and characters gathered to its right. -/
  gather (b : UInt8) : Text × List Text → Text × List Text
    | (pending, cs) => if isContinuation b then (b :: pending, cs) else ([], (b :: pending) :: cs)

/-- How many characters a text has. -/
def charCount (t : Text) : Nat := t.countP (!isContinuation ·)

/-- The first `n` characters of a text. -/
def takeChars : Nat → Text → Text
  | _, [] => []
  | n, b :: rest =>
    if isContinuation b then b :: takeChars n rest
    else match n with
      | 0 => []
      | m + 1 => b :: takeChars m rest

/-- Whether `offset` lies between two characters of the text, or at one of its ends. -/
def isCharStart (t : Text) (offset : Nat) : Bool :=
  match t[offset]? with
  | some b => !isContinuation b
  | none => offset == t.length

/-- The text from its first character start on. -/
def toCharStart (t : Text) : Text := t.dropWhile isContinuation

/-! ## Lines -/

/-- The lines of a text without their line feeds. There is always at least one; a text that
ends in a line feed has an empty last line. -/
def lines : Text → List Text
  | [] => [[]]
  | b :: rest =>
    if b = newline then [] :: lines rest
    else match lines rest with
      | line :: more => (b :: line) :: more
      | [] => [[b]]

/-- The text with these lines, the inverse of `lines`. -/
def ofLines (ls : List Text) : Text := [newline].intercalate ls

/-- Every carriage return that stands before a line feed is dropped. -/
def normalizeNewlines : Text → Text
  | [] => []
  | b :: rest =>
    if b = carriageReturn ∧ rest.head? = some newline then normalizeNewlines rest
    else b :: normalizeNewlines rest

/-- The text with every line feed written as `mark`. -/
def withNewline (t mark : Text) : Text :=
  t.flatMap fun b => if b = newline then mark else [b]

/-- Whether some line feed follows a carriage return. -/
def hasCarriageReturns : Text → Bool
  | [] => false
  | b :: rest => (b == carriageReturn && rest.head? == some newline) || hasCarriageReturns rest

end Text

end Regen
