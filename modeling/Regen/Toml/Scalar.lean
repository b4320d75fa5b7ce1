import Regen.Toml.Moment
import Regen.Toml.Value

/-!
# Unquoted values

Numbers, truth values, dates and times. Each is a run of characters that is read as a whole.
-/

namespace Regen.Toml

/-- Splits off a sign, of which the answer is whether it is a minus. -/
def splitSign : List Char → Bool × List Char
  | '-' :: rest => (true, rest)
  | '+' :: rest => (false, rest)
  | cs => (false, cs)

/-- Whether an integer fits into 64 bits. -/
def fitsInt64 (n : Int) : Bool := -9223372036854775808 ≤ n && n ≤ 9223372036854775807

/-- The digits of a whole part, which has no zero in front of other digits. -/
def wholePart? (cs : List Char) : Option (List Char) := do
  let digits ← Digits.dropUnderscores? 10 cs
  guard (!digits.isEmpty && (digits.length = 1 || digits.head? != some '0'))
  return digits

/-- An integer. -/
def integer? (cs : List Char) : Option Int := do
  let n : Int ← match cs with
    | '0' :: 'x' :: rest => do pure ↑(← Digits.read? 16 (← Digits.dropUnderscores? 16 rest))
    | '0' :: 'o' :: rest => do pure ↑(← Digits.read? 8 (← Digits.dropUnderscores? 8 rest))
    | '0' :: 'b' :: rest => do pure ↑(← Digits.read? 2 (← Digits.dropUnderscores? 2 rest))
    | _ => do
      let (negative, digits) := splitSign cs
      let n ← Digits.read? 10 (← wholePart? digits)
      pure (if negative then -(n : Int) else n)
  guard (fitsInt64 n)
  return n

/-- The exponent of a floating point number, where the part from the letter on is given. -/
def exponent? : List Char → Option Int
  | [] => some 0
  | _ :: cs => do
    let (negative, digits) := splitSign cs
    let n ← Digits.read? 10 (← Digits.dropUnderscores? 10 digits)
    return if negative then -(n : Int) else n

/-- A floating point number, one that has a fraction or an exponent or is not finite. -/
def float? (cs : List Char) : Option Float := do
  let (negative, digits) := splitSign cs
  let x ←
    if digits = ['i', 'n', 'f'] then pure (1.0 / 0.0 : Float)
    else if digits = ['n', 'a', 'n'] then pure (0.0 / 0.0 : Float)
    else do
      let isMark (c : Char) : Bool := c = 'e' || c = 'E'
      let mantissa := digits.takeWhile (!isMark ·)
      let exponentPart := digits.dropWhile (!isMark ·)
      let whole := mantissa.takeWhile (· != '.')
      let point := mantissa.dropWhile (· != '.')
      guard (!(point.isEmpty && exponentPart.isEmpty))
      let whole ← wholePart? whole
      let fraction ← match point with
        | [] => some []
        | _ :: fraction => do
          let fraction ← Digits.dropUnderscores? 10 fraction
          guard (!fraction.isEmpty)
          pure fraction
      let x := Digits.toFloat whole fraction (← exponent? exponentPart)
      guard (!x.isInf)
      pure x
  return if negative then -x else x

/-- The value of an unquoted run of characters. -/
def scalar? (cs : List Char) : Option Value :=
  if cs = ['t', 'r', 'u', 'e'] then some (.bool true)
  else if cs = ['f', 'a', 'l', 's', 'e'] then some (.bool false)
  else (integer? cs).map .int <|> (float? cs).map .float <|> (Moment.read? cs).map .moment

/-- Whether a character can be part of an unquoted value. -/
def isScalarChar (c : Char) : Bool :=
  c.isAlphanum || c = '+' || c = '-' || c = '_' || c = '.' || c = ':'

/-- Splits off an unquoted value. A space between a date and a time is part of it. -/
def splitScalar (cs : List Char) : List Char × List Char :=
  let token := cs.takeWhile isScalarChar
  let rest := cs.dropWhile isScalarChar
  match rest with
  | ' ' :: c :: d :: ':' :: _ =>
    if token.length = 10 && (Moment.date? token).isSome
        && Digits.isDecimal c && Digits.isDecimal d then
      let more := rest.drop 1
      (token ++ ' ' :: more.takeWhile isScalarChar, more.dropWhile isScalarChar)
    else (token, rest)
  | _ => (token, rest)

end Regen.Toml
