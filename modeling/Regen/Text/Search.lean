import Regen.Text.Basic

/-!
# Searching a text

Positions of bytes and of tokens inside a stretch of a text, and the replacement of tokens.
Every search answers with an offset into the whole text, and finds an occurrence only if it
lies wholly inside the stretch.
-/

namespace Regen.Text

/-- The first position at which `token` occurs. -/
def find? (token : Text) : Text → Option Nat
  | [] => if token.isEmpty then some 0 else none
  | b :: rest =>
    if token.isPrefixOf (b :: rest) then some 0
    else (find? token rest).map (· + 1)

/-- The first occurrence of `token` inside the stretch from `start` to `stop`. -/
def findIn? (token t : Text) (start stop : Nat) : Option Nat :=
  (find? token (t.extract start stop)).map (· + start)

/-- The first occurrence of a byte inside the stretch from `start` to `stop`. -/
def byteIn? (b : UInt8) (t : Text) (start stop : Nat) : Option Nat :=
  ((t.extract start stop).idxOf? b).map (· + start)

/-- The last position at which a byte occurs. -/
def lastIdxOf? (b : UInt8) : Text → Option Nat
  | [] => none
  | c :: rest =>
    match lastIdxOf? b rest with
    | some i => some (i + 1)
    | none => if c = b then some 0 else none

/-- The last occurrence of a byte inside the stretch from `start` to `stop`. -/
def lastByteIn? (b : UInt8) (t : Text) (start stop : Nat) : Option Nat :=
  (lastIdxOf? b (t.extract start stop)).map (· + start)

/-- Where the line holding `offset` starts. -/
def lineStart (t : Text) (offset : Nat) : Nat :=
  match lastByteIn? newline t 0 offset with
  | some i => i + 1
  | none => 0

/-- Where the line that a search from `offset` reaches ends, its line feed included. -/
def lineStop (t : Text) (offset : Nat) : Nat :=
  match byteIn? newline t offset t.length with
  | some i => i + 1
  | none => t.length

/-- The text with its first occurrence of `token` replaced. -/
def replaceFirst (token replacement : Text) : Text → Text
  | [] => if token.isEmpty then replacement else []
  | b :: rest =>
    if token.isPrefixOf (b :: rest) then replacement ++ (b :: rest).drop token.length
    else b :: replaceFirst token replacement rest

/-- The text with every occurrence of `token` replaced, from left to right, no occurrence
overlapping the one before it. -/
def replaceAll (token replacement : Text) (t : Text) : Text := go 0 t
where
  /-- Works on the rest of the text, whose first `skip` bytes belong to the last occurrence. -/
  go : Nat → Text → Text
    | _, [] => []
    | skip + 1, _ :: rest => go skip rest
    | 0, b :: rest =>
      if !token.isEmpty && token.isPrefixOf (b :: rest) then
        replacement ++ go (token.length - 1) rest
      else b :: go 0 rest

end Regen.Text
