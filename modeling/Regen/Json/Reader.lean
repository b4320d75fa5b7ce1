import Regen.Number.Digits
import Regen.Value

/-!
# Reading JSON

The reader answers with the value of a text, or with nothing if the text is no JSON. Of fields with
the same key the last counts. Whole numbers beyond 64 bits are read as floating point numbers, and
values may be nested less than 128 deep.
-/

namespace Regen.Json

/-- A reader takes what it reads off the front of the input, or fails. -/
abbrev Reader (α : Type) := List Char → Option (α × List Char)

/-- Drops blanks and line ends. -/
def dropBlanks (cs : List Char) : List Char :=
  cs.dropWhile fun c => c = ' ' || c = '\t' || c = '\n' || c = '\r'

/-- A unit of four hexadecimal digits. -/
def hexUnit : Reader Nat := fun cs => do
  let digits := cs.take 4
  guard (digits.length = 4)
  return (← Digits.read? 16 digits, cs.drop 4)

/-- A character given by one unit, or by two that stand for one character beyond the basic
plane. -/
def unicodeEscape : Reader Char := fun cs => do
  let (high, cs) ← hexUnit cs
  if 0xD800 ≤ high && high < 0xDC00 then
    match cs with
    | '\\' :: 'u' :: cs =>
      let (low, cs) ← hexUnit cs
      guard (0xDC00 ≤ low && low < 0xE000)
      return (Char.ofNat (0x10000 + (high - 0xD800) * 0x400 + (low - 0xDC00)), cs)
    | _ => none
  else
    guard (!(0xDC00 ≤ high && high < 0xE000))
    return (Char.ofNat high, cs)

/-- The character of an escape, from behind the backslash. -/
def escape : Reader Char
  | '"' :: cs => some ('"', cs)
  | '\\' :: cs => some ('\\', cs)
  | '/' :: cs => some ('/', cs)
  | 'b' :: cs => some ('\x08', cs)
  | 'f' :: cs => some ('\x0c', cs)
  | 'n' :: cs => some ('\n', cs)
  | 'r' :: cs => some ('\r', cs)
  | 't' :: cs => some ('\t', cs)
  | 'u' :: cs => unicodeEscape cs
  | _ => none

/-- The rest of a string, from behind its opening quote; `read` holds what was read of it,
reversed. Every step takes a character, so the length of the input is enough steps. -/
def stringRest : (steps : Nat) → (read : List Char) → Reader String
  | 0, _, _ => none
  | _, _, [] => none
  | steps + 1, read, c :: cs =>
    if c = '"' then some (String.ofList read.reverse, cs)
    else if c = '\\' then do
      let (d, cs) ← escape cs
      stringRest steps (d :: read) cs
    else if c.toNat < 32 then none
    else stringRest steps (c :: read) cs

/-- The digits of a whole part, which has no zero in front of other digits. -/
def wholeDigits : Reader (List Char)
  | '0' :: cs => some (['0'], cs)
  | cs =>
    let digits := cs.takeWhile Digits.isDecimal
    if digits.isEmpty then none else some (digits, cs.dropWhile Digits.isDecimal)

/-- The digits of a fraction, if there is one. -/
def fractionDigits : Reader (Option (List Char))
  | '.' :: cs =>
    let digits := cs.takeWhile Digits.isDecimal
    if digits.isEmpty then none else some (some digits, cs.dropWhile Digits.isDecimal)
  | cs => some (none, cs)

/-- The number in an exponent, from behind its letter. -/
def exponentNumber (cs : List Char) : Option (Int × List Char) := do
  let (negative, cs) := match cs with
    | '-' :: cs => (true, cs)
    | '+' :: cs => (false, cs)
    | cs => (false, cs)
  let n ← Digits.read? 10 (cs.takeWhile Digits.isDecimal)
  return (if negative then -(n : Int) else n, cs.dropWhile Digits.isDecimal)

/-- An exponent, if there is one. -/
def exponentPart : Reader (Option Int)
  | 'e' :: cs | 'E' :: cs => (exponentNumber cs).map fun (n, cs) => (some n, cs)
  | cs => some (none, cs)

/-- Whether a whole number fits into 64 bits, with a sign or without. -/
def fitsInteger (n : Int) : Bool := -9223372036854775808 ≤ n && n ≤ 18446744073709551615

/-- A number. -/
def number : Reader Value := fun cs => do
  let (negative, cs) := match cs with
    | '-' :: cs => (true, cs)
    | cs => (false, cs)
  let (whole, cs) ← wholeDigits cs
  let (fraction?, cs) ← fractionDigits cs
  let (exponent?, cs) ← exponentPart cs
  let n ← Digits.read? 10 whole
  let signed : Int := if negative then -(n : Int) else n
  if fraction?.isNone && exponent?.isNone && fitsInteger signed && !(negative && n = 0) then
    return (.int signed, cs)
  else
    let x := Digits.toFloat whole (fraction?.getD []) (exponent?.getD 0)
    guard (!x.isInf)
    return (.float (if negative then -x else x), cs)

mutual

/-- A value, nested in fewer than `depth` others. Every step takes a character, so the length of
the input is enough steps. -/
def value : (steps depth : Nat) → Reader Value
  | 0, _, _ => none
  | steps + 1, depth, cs =>
    match dropBlanks cs with
    | 'n' :: 'u' :: 'l' :: 'l' :: cs => some (.null, cs)
    | 't' :: 'r' :: 'u' :: 'e' :: cs => some (.bool true, cs)
    | 'f' :: 'a' :: 'l' :: 's' :: 'e' :: cs => some (.bool false, cs)
    | '"' :: cs => (stringRest (cs.length + 1) [] cs).map fun (s, cs) => (.str s, cs)
    | '[' :: cs =>
      match depth with
      | 0 | 1 => none
      | depth + 1 =>
        match dropBlanks cs with
        | ']' :: cs => some (.list [], cs)
        | cs => items steps depth [] cs
    | '{' :: cs =>
      match depth with
      | 0 | 1 => none
      | depth + 1 =>
        match dropBlanks cs with
        | '}' :: cs => some (.object [], cs)
        | cs => fields steps depth [] cs
    | cs => number cs

/-- The items of a list up to its bracket; `read` holds those already read, reversed. -/
def items : (steps depth : Nat) → (read : List Value) → Reader Value
  | 0, _, _, _ => none
  | steps + 1, depth, read, cs => do
    let (v, cs) ← value steps depth cs
    match dropBlanks cs with
    | ',' :: cs => items steps depth (v :: read) cs
    | ']' :: cs => return (.list (v :: read).reverse, cs)
    | _ => none

/-- The fields of an object up to its brace; `read` holds those already read. -/
def fields : (steps depth : Nat) → (read : Fields) → Reader Value
  | 0, _, _, _ => none
  | steps + 1, depth, read, cs => do
    match dropBlanks cs with
    | '"' :: cs => do
      let (key, cs) ← stringRest (cs.length + 1) [] cs
      match dropBlanks cs with
      | ':' :: cs => do
        let (v, cs) ← value steps depth cs
        let read := read.set key v
        match dropBlanks cs with
        | ',' :: cs => fields steps depth read cs
        | '}' :: cs => return (.object read, cs)
        | _ => none
      | _ => none
    | _ => none

end

/-- The value of a text. -/
def read? (s : String) : Option Value :=
  let cs := s.toList
  match value (cs.length + 1) 128 cs with
  | some (v, rest) => if (dropBlanks rest).isEmpty then some v else none
  | none => none

end Regen.Json
