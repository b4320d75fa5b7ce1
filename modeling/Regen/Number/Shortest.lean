/-!
# The shortest decimal that reads back

A finite floating point number stands for all real numbers that round to it. It is written with
as few digits as name one of these, and of the numbers with that few digits the nearest is taken.
All comparisons are between natural numbers.
-/

namespace Regen

/-- A positive decimal: `digits` times ten to the power `exponent`. -/
structure Decimal where
  /-- The digits as a whole number. -/
  digits : Nat
  /-- The power of ten. -/
  exponent : Int
  deriving DecidableEq, Repr

namespace Shortest

/-- A power of two. -/
def twoTo (n : Nat) : Nat := Nat.pow 2 n

/-- A power of ten. -/
def tenTo (n : Nat) : Nat := Nat.pow 10 n

/-- A finite positive number as `mantissa * 2 ^ exponent`, taken apart from its bits. -/
def decode (x : Float) : Nat × Int :=
  let bits := x.toBits.toNat
  let field : Nat := (bits / twoTo 52) % twoTo 11
  let fraction := bits % twoTo 52
  if field = 0 then (fraction, -1074) else (fraction + twoTo 52, (field : Int) - 1075)

/-- Both sides of a comparison of `n * 2 ^ p` with `d * 10 ^ e`, as natural numbers. -/
def sides (n : Nat) (p : Int) (d : Nat) (e : Int) : Nat × Nat :=
  (n * twoTo p.toNat * tenTo (-e).toNat, d * tenTo e.toNat * twoTo (-p).toNat)

/-- Whether a decimal rounds to the number with this mantissa and exponent. The ends of the
interval belong to it if the mantissa is even. The gap below a power of two is half as wide. -/
def roundsTo (mantissa : Nat) (exponent : Int) (d : Decimal) : Bool :=
  let lowEnd :=
    if mantissa = twoTo 52 && exponent ≠ -1074 then 4 * mantissa - 1 else 4 * mantissa - 2
  let (low, above) := sides lowEnd (exponent - 2) d.digits d.exponent
  let (high, below) := sides (4 * mantissa + 2) (exponent - 2) d.digits d.exponent
  if mantissa % 2 = 0 then low ≤ above && below ≤ high else low < above && below < high

/-- The neighbours of a number on the grid of multiples of a power of ten that round to it, the
nearest of them first. -/
def onGrid? (mantissa : Nat) (exponent e : Int) : Option Decimal :=
  let (value, unit) := sides mantissa exponent 1 e
  let floor := value / unit
  let low : Decimal := ⟨floor, e⟩
  let high : Decimal := ⟨floor + 1, e⟩
  let lowFits := floor ≠ 0 && roundsTo mantissa exponent low
  let highFits := roundsTo mantissa exponent high
  let below := value - floor * unit
  let above := unit - below
  if lowFits && highFits then
    some (if below < above || (below = above && floor % 2 = 0) then low else high)
  else if lowFits then some low
  else if highFits then some high
  else none

/-- The first grid with a hit, from the power of ten `e` downwards. -/
def search (mantissa : Nat) (exponent : Int) : (steps : Nat) → (e : Int) → Decimal
  | 0, e => ⟨0, e⟩
  | steps + 1, e => (onGrid? mantissa exponent e).getD (search mantissa exponent steps (e - 1))

/-- The shortest decimal that reads back as a finite positive number. -/
def ofFloat (x : Float) : Decimal :=
  let (mantissa, exponent) := decode x
  let bits : Int := mantissa.log2 + exponent
  -- The power of ten just above the number, or one more.
  let top := (bits * 30103) / 100000 + 2
  search mantissa exponent 24 top

end Shortest

/-- How a finite number is laid out in writing. -/
structure NumberLayout where
  /-- The greatest number of digits before the point; numbers with more are written with an
  exponent. -/
  maxWhole : Option Nat
  /-- The greatest number of zeros just behind the point; numbers with more are written with an
  exponent. -/
  maxZeros : Option Nat

/-- Writes a decimal. There is a digit on both sides of the point, and no point before an exponent
unless digits follow it. -/
def NumberLayout.render (layout : NumberLayout) (d : Decimal) : String :=
  let digits := (toString d.digits).toList
  -- How many digits stand before the point.
  let whole := d.exponent + digits.length
  let positional :=
    if whole ≤ 0 then layout.maxZeros.all fun m => (-whole).toNat ≤ m
    else layout.maxWhole.all fun m => whole.toNat ≤ m
  if positional then
    if whole ≤ 0 then "0." ++ "".pushn '0' (-whole).toNat ++ String.ofList digits
    else if whole.toNat < digits.length then
      String.ofList (digits.take whole.toNat) ++ "." ++ String.ofList (digits.drop whole.toNat)
    else (String.ofList digits).pushn '0' (whole.toNat - digits.length) ++ ".0"
  else
    let tail := if digits.length = 1 then "" else "." ++ String.ofList (digits.drop 1)
    String.ofList (digits.take 1) ++ tail ++ "e" ++ toString (whole - 1)

/-- Writes a finite number. -/
def NumberLayout.renderFloat (layout : NumberLayout) (x : Float) : String :=
  let sign := if x.toBits.toNat < Shortest.twoTo 63 then "" else "-"
  if x == 0 then sign ++ "0.0" else sign ++ layout.render (Shortest.ofFloat x.abs)

end Regen
