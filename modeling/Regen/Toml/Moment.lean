import Regen.Number.Digits

/-!
# Dates and times

Dates, times of day, and points in time with or without an offset, as TOML writes them. The normal
spelling has a `T` between date and time, capital letters, and no zeros at the end of a fraction
of a second.
-/

namespace Regen.Toml.Moment

/-- Reads exactly `n` decimal digits. -/
def digits? (n : Nat) (cs : List Char) : Option (Nat × List Char) :=
  let head := cs.take n
  if head.length = n then (Digits.read? 10 head).map (·, cs.drop n) else none

/-- Reads one given character. -/
def sign? (c : Char) : List Char → Option (List Char)
  | d :: rest => if c = d then some rest else none
  | [] => none

/-- The number of days of a month. -/
def daysIn (year month : Nat) : Nat :=
  if month = 2 then
    if year % 4 = 0 && (year % 100 != 0 || year % 400 = 0) then 29 else 28
  else if [4, 6, 9, 11].contains month then 30
  else 31

/-- Reads a date and answers with its normal spelling. -/
def date? (cs : List Char) : Option (String × List Char) := do
  let (year, cs) ← digits? 4 cs
  let cs ← sign? '-' cs
  let (month, cs) ← digits? 2 cs
  let cs ← sign? '-' cs
  let (day, cs) ← digits? 2 cs
  guard (1 ≤ month && month ≤ 12 && 1 ≤ day && day ≤ daysIn year month)
  return (s!"{Digits.padded 4 year}-{Digits.padded 2 month}-{Digits.padded 2 day}", cs)

/-- A fraction of a second in normal spelling: nine digits at most, and no zeros at its end but
one that stands alone. -/
def fraction (digits : List Char) : String :=
  let kept := ((digits.take 9).reverse.dropWhile (· = '0')).reverse
  if kept.isEmpty then ".0" else "." ++ String.ofList kept

/-- Reads a time of day and answers with its normal spelling. The seconds may be left out. -/
def time? (cs : List Char) : Option (String × List Char) := do
  let (hour, cs) ← digits? 2 cs
  let cs ← sign? ':' cs
  let (minute, cs) ← digits? 2 cs
  guard (hour < 24 && minute < 60)
  let start := s!"{Digits.padded 2 hour}:{Digits.padded 2 minute}"
  match sign? ':' cs with
  | none => return (start, cs)
  | some cs =>
    let (second, cs) ← digits? 2 cs
    guard (second ≤ 60)
    let start := s!"{start}:{Digits.padded 2 second}"
    match sign? '.' cs with
    | none => return (start, cs)
    | some cs =>
      let digits := cs.takeWhile Digits.isDecimal
      guard (!digits.isEmpty)
      return (start ++ fraction digits, cs.dropWhile Digits.isDecimal)

/-- Reads an offset from universal time and answers with its normal spelling. -/
def offset? (cs : List Char) : Option (String × List Char) := do
  match cs with
  | c :: rest =>
    if c = 'Z' || c = 'z' then return ("Z", rest)
    else
      guard (c = '+' || c = '-')
      let (hour, rest) ← digits? 2 rest
      let rest ← sign? ':' rest
      let (minute, rest) ← digits? 2 rest
      guard (hour < 24 && minute < 60)
      return (s!"{c}{Digits.padded 2 hour}:{Digits.padded 2 minute}", rest)
  | [] => none

/-- The normal spelling of a date, a time or a point in time, if this is one. -/
def read? (cs : List Char) : Option String :=
  match date? cs with
  | none =>
    match time? cs with
    | some (time, []) => some time
    | _ => none
  | some (date, []) => some date
  | some (date, c :: rest) =>
    if c = 'T' || c = 't' || c = ' ' then
      match time? rest with
      | some (time, []) => some s!"{date}T{time}"
      | some (time, rest) =>
        match offset? rest with
        | some (offset, []) => some s!"{date}T{time}{offset}"
        | _ => none
      | none => none
    else none

end Regen.Toml.Moment
