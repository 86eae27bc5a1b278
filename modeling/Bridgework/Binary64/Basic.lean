/-!
# Finite numbers of 64-bit binary floating point

A finite double is a sign, a mantissa below `2 ^ 53` and a power of two. Arithmetic goes through exact
fractions and rounds once, to the nearest number and to the even mantissa between two equally near.

- `Binary64` : a finite double, in its one normal form
- `Binary64.ofRatio?` : the nearest double of a fraction, if it is finite
- `Binary64.timesPowerOfTen?` : one multiplication or division by a power of ten, rounded
-/

namespace Bridgework

/-- A finite double: `mantissa * 2 ^ exponent`, negated if `negative`. The mantissa has 53 bits, or
fewer with the least exponent. -/
structure Binary64 where
  negative : Bool
  mantissa : Nat
  exponent : Int
  deriving DecidableEq, Repr

namespace Binary64

/-! ## Rounding -/

def leastExponent : Int := -1074

def greatestExponent : Int := 971

def zero (negative : Bool) : Binary64 := ⟨negative, 0, leastExponent⟩

/-- The quotient rounded to the nearest whole number, to the even one between two equally near. -/
def roundQuotient (n d : Nat) : Nat :=
  let q := n / d
  let r := n % d
  if d < 2 * r || (2 * r == d && q % 2 == 1) then q + 1 else q

/-- The fraction `n / d` divided by `2 ^ e`, as numerator and denominator. -/
def scale (n d : Nat) (e : Int) : Nat × Nat :=
  if 0 ≤ e then (n, d * Nat.pow 2 e.toNat) else (n * Nat.pow 2 (-e).toNat, d)

/-- The exponent with which the mantissa of `n / d` has 53 bits, or the least exponent. -/
def exponentOf (n d : Nat) : Int :=
  let e := max leastExponent ((n.log2 : Int) - d.log2 - 53)
  let (a, b) := scale n d e
  if a / b < 0x20000000000000 then e else e + 1

/-- The double of a rounded mantissa, which may have become `2 ^ 53`; `none` if that is infinite. -/
def pack? (negative : Bool) (m : Nat) (e : Int) : Option Binary64 :=
  let (m, e) := if m = 0x20000000000000 then (0x10000000000000, e + 1) else (m, e)
  if e ≤ greatestExponent then some ⟨negative, m, e⟩ else none

/-- The double nearest to `n / d`; `none` if that is infinite. -/
def ofRatio? (negative : Bool) (n d : Nat) : Option Binary64 :=
  if n = 0 then some (zero negative)
  else
    let e := exponentOf n d
    let (a, b) := scale n d e
    pack? negative (roundQuotient a b) e

def greatest : Binary64 := ⟨false, 0x1fffffffffffff, greatestExponent⟩

/-- The double nearest to a whole number, as far as it is below `2 ^ 1024`. -/
def ofNat (n : Nat) : Binary64 := (ofRatio? false n 1).getD greatest

/-- The absolute value as an exact fraction. -/
def ratio (x : Binary64) : Nat × Nat :=
  if 0 ≤ x.exponent then (x.mantissa * Nat.pow 2 x.exponent.toNat, 1)
  else (x.mantissa, Nat.pow 2 (-x.exponent).toNat)

def neg (x : Binary64) : Binary64 := { x with negative := !x.negative }

def isZero (x : Binary64) : Bool := x.mantissa == 0

/-- Whether one number is less than another. Zero has two signs and one value. -/
def less (x y : Binary64) : Bool :=
  let (a, b) := x.ratio
  let (c, d) := y.ratio
  (if x.negative then -(a * d : Int) else a * d) < if y.negative then -(c * b : Int) else c * b

/-! ## Arithmetic -/

def mul? (x y : Binary64) : Option Binary64 :=
  let (a, b) := x.ratio
  let (c, d) := y.ratio
  ofRatio? (x.negative != y.negative) (a * c) (b * d)

/-- The rounded quotient; `none` if infinite. The divisor is not zero. -/
def div? (x y : Binary64) : Option Binary64 :=
  let (a, b) := x.ratio
  let (c, d) := y.ratio
  ofRatio? (x.negative != y.negative) (a * d) (b * c)

/-- The double nearest to a power of ten, for exponents up to 308. -/
def powerOfTen (k : Nat) : Binary64 := (ofRatio? false (Nat.pow 10 k) 1).getD (zero false)

/-- Divides by `10 ^ 308` until the exponent is at least `-308` or nothing is left. -/
def lowerPower : Nat → Binary64 → Int → Binary64 × Int
  | 0, x, k => (x, k)
  | fuel + 1, x, k =>
    if -308 ≤ k || x.isZero then (x, k)
    else lowerPower fuel ((x.div? (powerOfTen 308)).getD x) (k + 308)

/-- A number times `10 ^ k`, by one multiplication or division with the rounded power; powers below
`10 ^ -308` take several divisions. `none` if the result is infinite. -/
def timesPowerOfTen? (x : Binary64) (k : Int) : Option Binary64 :=
  if 308 < k then if x.isZero then some x else none
  else
    let (x, k) := lowerPower (k.natAbs / 308 + 1) x k
    if k < -308 then some x
    else if 0 ≤ k then x.mul? (powerOfTen k.toNat)
    else x.div? (powerOfTen (-k).toNat)

end Binary64
end Bridgework
