namespace FilterQuery

/-! Finite numbers of the binary64 format, computed exactly.

Every operation rounds an exact ratio of natural numbers once, to the nearest number of the format
and to an even significand when two are equally near.  Nothing depends on the hardware.
-/

/-- A finite binary64 number, `± significand · 2 ^ exponent`.  The significand is below `2 ^ 53`,
and below `2 ^ 52` only at the least exponent. -/
structure Double where
  negative : Bool
  significand : Nat
  exponent : Int
deriving DecidableEq, Repr, Inhabited

namespace Double

def leastExponent : Int := -1074

def greatestExponent : Int := 971

def leastNormal : Nat := 0x10000000000000

def powerOfTen (exponent : Nat) : Nat :=
  Nat.pow 10 exponent

def zero (negative : Bool) : Double :=
  ⟨negative, 0, leastExponent⟩

def isZero (x : Double) : Bool :=
  x.significand == 0

def negate (x : Double) : Double :=
  { x with negative := !x.negative }

/-- The natural number nearest to a quotient, an even one when two are equally near. -/
def roundQuotient (num den : Nat) : Nat :=
  let quotient := num / den
  let twice := 2 * (num % den)
  if twice < den then quotient
  else if den < twice then quotient + 1
  else quotient + quotient % 2

/-- Numerator and denominator of a ratio divided by `2 ^ exponent`. -/
def shifted (num den : Nat) (exponent : Int) : Nat × Nat :=
  if 0 ≤ exponent then (num, den <<< exponent.toNat)
  else (num <<< (-exponent).toNat, den)

/-- The exponent at which a positive ratio has a significand of 53 bits, or the least exponent. -/
def exponentOf (num den : Nat) : Int :=
  let guess : Int := (num.log2 : Int) - den.log2 - 52
  let (n, d) := shifted num den guess
  max leastExponent (if n / d < leastNormal then guess - 1 else guess)

/-- The number nearest to a ratio, or nothing when that is beyond the finite numbers. -/
def ofRatio? (negative : Bool) (num den : Nat) : Option Double :=
  if num = 0 then some (zero negative)
  else
    let exponent := exponentOf num den
    let (n, d) := shifted num den exponent
    let rounded := roundQuotient n d
    let (significand, exponent) :=
      if rounded = 2 * leastNormal then (leastNormal, exponent + 1) else (rounded, exponent)
    if greatestExponent < exponent then none else some ⟨negative, significand, exponent⟩

def ratio (x : Double) : Nat × Nat :=
  if 0 ≤ x.exponent then (x.significand <<< x.exponent.toNat, 1)
  else (x.significand, 1 <<< (-x.exponent).toNat)

def product? (x y : Double) : Option Double :=
  let (a, b) := x.ratio
  let (c, d) := y.ratio
  ofRatio? (x.negative != y.negative) (a * c) (b * d)

def quotient? (x y : Double) : Option Double :=
  let (a, b) := x.ratio
  let (c, d) := y.ratio
  ofRatio? (x.negative != y.negative) (a * d) (b * c)

def digitCount (n : Nat) : Nat :=
  (Nat.toDigits 10 n).length

/-- The number nearest to `± significand · 10 ^ exponent`, or nothing when that is too large.
Numbers far outside the range of the format are decided by their size alone. -/
def ofDecimal? (negative : Bool) (significand : Nat) (exponent : Int) : Option Double :=
  let size := (digitCount significand : Int) + exponent
  if significand = 0 ∨ size < -330 then some (zero negative)
  else if 310 < size then none
  else if 0 ≤ exponent then ofRatio? negative (significand * powerOfTen exponent.toNat) 1
  else ofRatio? negative significand (powerOfTen (-exponent).toNat)

def tenTo (power : Nat) : Double :=
  (ofDecimal? false 1 power).getD (zero false)

structure Decimal where
  digits : Nat
  exponent : Int
deriving DecidableEq, Repr, Inhabited

/-- Four times the magnitude, and the bounds of the reals that round to it likewise, all over one
denominator: lower bound, magnitude, upper bound, denominator. -/
def neighbourhood (x : Double) : Nat × Nat × Nat × Nat :=
  let (num, den) := ratio { x with significand := 1 }
  let below := if x.significand = leastNormal ∧ leastExponent < x.exponent then 1 else 2
  ((4 * x.significand - below) * num, 4 * x.significand * num, (4 * x.significand + 2) * num,
    4 * den)

/-- Whether a ratio is among the reals that round to the number.  The bounds belong to numbers
with an even significand. -/
def roundsTo (x : Double) (num den : Nat) : Bool :=
  let (lower, _, upper, scale) := x.neighbourhood
  if x.significand % 2 = 0 then lower * den ≤ num * scale && num * scale ≤ upper * den
  else lower * den < num * scale && num * scale < upper * den

def overTenTo (num den : Nat) (power : Int) : Nat × Nat :=
  if 0 ≤ power then (num, den * powerOfTen power.toNat)
  else (num * powerOfTen (-power).toNat, den)

def gridPoint (digits : Nat) (power : Int) : Nat × Nat :=
  if 0 ≤ power then (digits * powerOfTen power.toNat, 1)
  else (digits, powerOfTen (-power).toNat)

/-- The better of the two multiples of `10 ^ power` next to the number, if one rounds to it. -/
def onGrid? (x : Double) (power : Int) : Option Decimal :=
  let (num, den) := x.ratio
  let (n, d) := overTenTo num den power
  let floor := n / d
  let accepted (digits : Nat) : Bool :=
    let (p, q) := gridPoint digits power
    digits != 0 && x.roundsTo p q
  match accepted floor, accepted (floor + 1) with
  | true, true =>
      let twice := 2 * (n % d)
      let up := if twice = d then floor % 2 == 1 else decide (d < twice)
      some ⟨if up then floor + 1 else floor, power⟩
  | true, false => some ⟨floor, power⟩
  | false, true => some ⟨floor + 1, power⟩
  | false, false => none

def leadingPower (num den : Nat) : Int :=
  let guess : Int := (digitCount num : Int) - digitCount den
  let (n, d) := overTenTo num den guess
  if n < d then guess - 1 else guess

/-- Searches the grids on which the number has `count` digits, then one more, `fuel` times. -/
def searchGrids (x : Double) (leading : Int) : (fuel count : Nat) → Option Decimal
  | 0, _ => none
  | fuel + 1, count =>
      (x.onGrid? (leading - count + 1)).orElse fun _ => searchGrids x leading fuel (count + 1)

/-- The shortest decimal that reads back as the magnitude of a number that is not zero.
Seventeen digits always suffice. -/
def shortest (x : Double) : Decimal :=
  let (num, den) := x.ratio
  (searchGrids x (leadingPower num den) 17 1).getD ⟨x.significand, 0⟩

def digitsOf (n : Nat) : List Char :=
  Nat.toDigits 10 n

def dropTrailingZeros : (fuel : Nat) → Decimal → Decimal
  | 0, decimal => decimal
  | fuel + 1, decimal =>
      if decimal.digits ≠ 0 ∧ decimal.digits % 10 = 0 then
        dropTrailingZeros fuel ⟨decimal.digits / 10, decimal.exponent + 1⟩
      else decimal

def zeros (count : Int) : List Char :=
  List.replicate count.toNat '0'

def exponentChars (exponent : Int) : List Char :=
  (if exponent < 0 then '-' else '+') :: digitsOf exponent.natAbs

/-- A positive decimal: positional from `10 ^ -5` up to below `10 ^ 16` and always with a fraction,
otherwise scientific with one digit before the point. -/
def decimalChars (decimal : Decimal) : List Char :=
  let digits := digitsOf decimal.digits
  let length : Int := digits.length
  let point := length + decimal.exponent
  if 0 ≤ decimal.exponent ∧ point ≤ 16 then digits ++ zeros decimal.exponent ++ ['.', '0']
  else if 0 < point ∧ point ≤ 16 then
    digits.take point.toNat ++ ['.'] ++ digits.drop point.toNat
  else if -5 < point ∧ point ≤ 0 then ['0', '.'] ++ zeros (-point) ++ digits
  else
    let fraction := if digits.length = 1 then [] else '.' :: digits.drop 1
    digits.take 1 ++ fraction ++ ['e'] ++ exponentChars (point - 1)

def chars (x : Double) : List Char :=
  let magnitude :=
    if x.isZero then ['0', '.', '0'] else decimalChars (dropTrailingZeros 17 x.shortest)
  if x.negative then '-' :: magnitude else magnitude

end Double
end FilterQuery
