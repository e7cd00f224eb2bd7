import WorkspaceBuild.Text

/-! # Double precision numbers

Numbers of the 64-bit binary format as exact values `mantissa · 2 ^ exponent`. Rounding and the
search for the shortest decimal are done in whole numbers, so nothing here depends on the machine.
-/

namespace WorkspaceBuild

/-- A number of the 64-bit binary floating-point format. A finite number has a mantissa below
`2 ^ 53`, and one of `2 ^ 52` or more unless its exponent is the least, `-1074`. -/
inductive Double where
  | nan
  | infinity (negative : Bool)
  /-- The value `mantissa · 2 ^ exponent` with a sign, which zero has too. -/
  | finite (negative : Bool) (mantissa : Nat) (exponent : Int)
  deriving DecidableEq, Inhabited, Repr

namespace Double

def pow2 (n : Nat) : Nat := Nat.pow 2 n

def pow10 (n : Nat) : Nat := Nat.pow 10 n

def minExponent : Int := -1074

def maxExponent : Int := 971

def zero (negative : Bool) : Double := .finite negative 0 minExponent

/-- A ratio scaled by a power of two, as numerator and denominator. -/
def scaled (num den : Nat) (exponent : Int) : Nat × Nat :=
  if 0 ≤ exponent then (num * pow2 exponent.toNat, den)
  else (num, den * pow2 (-exponent).toNat)

/-- A ratio rounded to the nearest whole number, a half to the even one. -/
def roundEven (num den : Nat) : Nat :=
  let whole := num / den
  let twice := 2 * (num % den)
  if twice < den then whole
  else if den < twice then whole + 1
  else whole + whole % 2

/-- The exponent at which a positive ratio has a mantissa of 53 bits, or the least one. -/
def exponentFor (num den : Nat) : Int :=
  let guess : Int := (num.log2 : Int) - (den.log2 : Int) - 53
  let (n, d) := scaled num den (-guess)
  let fitted := if n < d * pow2 53 then guess else guess + 1
  if fitted < minExponent then minExponent else fitted

/-- The number nearest to a ratio, of two equally near ones that with the even mantissa. A ratio
beyond the greatest number rounds to infinity. -/
def ofRatio (negative : Bool) (num den : Nat) : Double :=
  if num = 0 then zero negative
  else
    let exponent := exponentFor num den
    let (n, d) := scaled num den (-exponent)
    let mantissa := roundEven n d
    let (mantissa, exponent) :=
      if mantissa = pow2 53 then (pow2 52, exponent + 1) else (mantissa, exponent)
    if maxExponent < exponent then .infinity negative else .finite negative mantissa exponent

def ofInt (n : Int) : Double := ofRatio (n < 0) n.natAbs 1

/-- The number nearest to `digits · 10 ^ power`. A power beyond a thousand digits decides alone. -/
def ofDecimal (negative : Bool) (digits : Nat) (power : Int) : Double :=
  if digits = 0 then zero negative
  else if 0 ≤ power then
    if 400 < power then .infinity negative
    else ofRatio negative (digits * pow10 power.toNat) 1
  else
    let places := (-power).toNat
    if (digits.log2 : Int) + 1200 < places then zero negative
    else ofRatio negative digits (pow10 places)

def isFinite : Double → Bool
  | .finite .. => true
  | _ => false

/-- The whole number a finite value is equal to. -/
def toNat? (mantissa : Nat) (exponent : Int) : Option Nat :=
  if 0 ≤ exponent then some (mantissa * pow2 exponent.toNat)
  else
    let unit := pow2 (-exponent).toNat
    if mantissa % unit = 0 then some (mantissa / unit) else none

/-- The interval of values that round to a finite number, in quarters of its last bit: the ends
belong to it when the mantissa is even. -/
structure Interval where
  /-- Lower end, the value and the upper end as multiples of a common unit. -/
  low : Nat
  mid : Nat
  high : Nat
  /-- The common unit is `2 ^ exponent`. -/
  exponent : Int
  /-- Whether the ends belong to the interval. -/
  closed : Bool
  deriving Repr

/-- The interval of a finite number. Below a power of two the numbers lie twice as close. -/
def interval (mantissa : Nat) (exponent : Int) : Interval :=
  let below := if mantissa = pow2 52 && minExponent < exponent then 1 else 2
  ⟨4 * mantissa - below, 4 * mantissa, 4 * mantissa + 2, exponent - 2, mantissa % 2 = 0⟩

/-- A grid of decimals `k · 10 ^ power`, in the unit of an interval: `num / den` units a step. -/
def gridStep (power exponent : Int) : Nat × Nat :=
  let (num, den) := scaled 1 1 (-exponent)
  if 0 ≤ power then (num * pow10 power.toNat, den)
  else (num, den * pow10 (-power).toNat)

/-- Whether the grid point `k` lies in the interval. -/
def Interval.holds (i : Interval) (num den k : Nat) : Bool :=
  let point := k * num
  if i.closed then i.low * den ≤ point && point ≤ i.high * den
  else i.low * den < point && point < i.high * den

/-- The point of a grid that stands for a number: a neighbour of the value that rounds back to it.
Of two the nearer one is taken, and of two equally near ones the upper one. -/
def Interval.onGrid? (i : Interval) (power : Int) : Option Nat :=
  let (num, den) := gridStep power i.exponent
  let lower := i.mid * den / num
  let upper := lower + 1
  match i.holds num den lower, i.holds num den upper with
  | true, false => some lower
  | false, true => some upper
  | true, true =>
      if 2 * (i.mid * den) < (lower + upper) * num then some lower else some upper
  | false, false => none

/-- The first grid with a point for the number, from the coarsest on. -/
def Interval.search (i : Interval) : Nat → Int → Nat × Int
  | 0, power => ((i.onGrid? power).getD 0, power)
  | grids + 1, power =>
      match i.onGrid? power with
      | some k => (k, power)
      | none => i.search grids (power - 1)

/-- A power of ten above the value: a bit is worth 0.30103 decimal digits. -/
def Interval.topPower (i : Interval) : Int :=
  ((i.mid.log2 : Int) + i.exponent + 1) * 30103 / 100000 + 1

/-- The fewest digits that read back as a positive finite number, with the power of ten of the last
of them. -/
def shortest (mantissa : Nat) (exponent : Int) : Nat × Int :=
  let i := interval mantissa exponent
  i.search 25 i.topPower

/-- Digits without exponent: zeros fill up to the point. -/
def positional (digits : Nat) (power : Int) : String :=
  let text := digits.repr.toList
  if 0 ≤ power then String.ofList (text ++ List.replicate power.toNat '0')
  else
    let places := (-power).toNat
    let padded := List.replicate (places + 1 - text.length) '0' ++ text
    let whole := padded.take (padded.length - places)
    String.ofList (whole ++ '.' :: padded.drop (padded.length - places))

/-- The sign of a number that is not printed as zero. -/
def signText (negative : Bool) : String := if negative then "-" else ""

/-- The text of a number: `NaN`, `Infinity`, whole numbers below `10 ^ 15` as such, and otherwise
the shortest decimal that reads back the same, never with an exponent. -/
def text : Double → String
  | .nan => "NaN"
  | .infinity negative => signText negative ++ "Infinity"
  | .finite negative mantissa exponent =>
      match toNat? mantissa exponent with
      | some 0 => "0"
      | some n =>
          if n < pow10 15 then signText negative ++ n.repr
          else
            let (digits, power) := shortest mantissa exponent
            signText negative ++ positional digits power
      | none =>
          let (digits, power) := shortest mantissa exponent
          signText negative ++ positional digits power

end Double

end WorkspaceBuild
