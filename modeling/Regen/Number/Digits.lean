/-!
# Digits

Numbers written in a positional system, read from lists of characters.
-/

namespace Regen.Digits

/-- The value of a digit of a base up to sixteen, in either case. -/
def value? (base : Nat) (c : Char) : Option Nat :=
  let n := c.toNat
  let digit? :=
    if 48 ≤ n && n ≤ 57 then some (n - 48)
    else if 97 ≤ n && n ≤ 102 then some (n - 87)
    else if 65 ≤ n && n ≤ 70 then some (n - 55)
    else none
  digit?.filter (· < base)

/-- Whether a character is a decimal digit. -/
def isDecimal (c : Char) : Bool := (value? 10 c).isSome

/-- The number written by these digits, of which there has to be one. -/
def read? (base : Nat) (cs : List Char) : Option Nat :=
  if cs.isEmpty then none
  else cs.foldl (fun acc? c => do return (← acc?) * base + (← value? base c)) (some 0)

/-- The digits without the underscores between them. An underscore has to stand between two
digits. -/
def dropUnderscores? (base : Nat) : List Char → Option (List Char)
  | [] => some []
  | [c] => if (value? base c).isSome then some [c] else none
  | c :: d :: rest =>
    if (value? base c).isNone then none
    else if d = '_' then
      match rest with
      | e :: _ =>
        if (value? base e).isSome then (dropUnderscores? base rest).map (c :: ·) else none
      | [] => none
    else (dropUnderscores? base (d :: rest)).map (c :: ·)

/-- The decimal number with these digits before and behind the point, times a power of ten. -/
def toFloat (whole fraction : List Char) (exponent : Int) : Float :=
  let mantissa := (read? 10 (whole ++ fraction)).getD 0
  let scale := exponent - fraction.length
  -- Beyond these bounds the result is infinite or zero whatever the digits are.
  let bound : Int := 400 + whole.length + fraction.length
  if mantissa = 0 then 0.0
  else if scale < -bound then 0.0
  else if scale < 0 then Float.ofScientific mantissa true scale.natAbs
  else if scale > bound then 1.0 / 0.0
  else Float.ofScientific mantissa false scale.natAbs

/-- At least `width` decimal digits, with zeros in front. -/
def padded (width n : Nat) : String :=
  let digits := toString n
  "".pushn '0' (width - digits.length) ++ digits

end Regen.Digits
