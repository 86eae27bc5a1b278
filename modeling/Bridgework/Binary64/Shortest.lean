import Bridgework.Binary64.Basic

/-!
# The shortest decimal of a double

The fewest decimal digits that read back as the same double, and of those the nearest to it.

- `Binary64.shortest` : the digits as a number, and the power of ten of the last one
-/

namespace Bridgework
namespace Binary64

/-! ## Digits -/

/-- Twice the value and twice the two ends of the interval that rounds to it, as numerators over one
denominator. Below a power of two the distance to the next number is half of that above. -/
def interval (x : Binary64) : Nat × Nat × Nat × Nat :=
  let e := x.exponent - 2
  let m := 4 * x.mantissa
  let low := if x.mantissa = 0x10000000000000 && leastExponent < x.exponent then m - 1 else m - 2
  let high := m + 2
  if 0 ≤ e then (low * Nat.pow 2 e.toNat, m * Nat.pow 2 e.toNat, high * Nat.pow 2 e.toNat, 1)
  else (low, m, high, Nat.pow 2 (-e).toNat)

/-- Whether `c * 10 ^ k` lies in the interval; its ends belong to it if the mantissa is even. -/
def inInterval (x : Binary64) (c : Nat) (k : Int) : Bool :=
  let (low, _, high, d) := x.interval
  let (p, q) := if 0 ≤ k then (c * Nat.pow 10 k.toNat * d, 1) else (c * d, Nat.pow 10 (-k).toNat)
  if x.mantissa % 2 = 0 then low * q ≤ p && p ≤ high * q else low * q < p && p < high * q

def digitCount (n : Nat) : Nat := (Nat.toDigits 10 n).length

/-- The power of ten just above the value: `10 ^ (k - 1) ≤ value < 10 ^ k`. -/
def magnitude (x : Binary64) : Int :=
  let (n, d) := x.ratio
  if d ≤ n then digitCount (n / d) else 1 - (digitCount ((d - 1) / n) : Int)

/-- The two neighbours of the value on the grid of multiples of `10 ^ k`. -/
def neighbours (x : Binary64) (k : Int) : Nat × Nat :=
  let (n, d) := x.ratio
  let (p, q) := if 0 ≤ k then (n, d * Nat.pow 10 k.toNat) else (n * Nat.pow 10 (-k).toNat, d)
  (p / q, (p + q - 1) / q)

/-- Whether the lower neighbour on the grid of `10 ^ k` is at least as near as the upper one; between
two equally near the even one counts as nearer. -/
def lowerIsNearer (x : Binary64) (a b : Nat) (k : Int) : Bool :=
  let (n, d) := x.ratio
  let (p, q) := if 0 ≤ k then (n, d * Nat.pow 10 k.toNat) else (n * Nat.pow 10 (-k).toNat, d)
  let below := p - a * q
  let above := b * q - p
  below < above || (below == above && a % 2 == 0)

/-- A decimal of so many digits that reads back, if there is one. -/
def ofDigits? (x : Binary64) (digits : Nat) : Option (Nat × Int) :=
  let k := x.magnitude - digits
  let (a, b) := x.neighbours k
  match x.inInterval a k, x.inInterval b k with
  | true, true => some (if x.lowerIsNearer a b k then a else b, k)
  | true, false => some (a, k)
  | false, true => some (b, k)
  | false, false => none

def dropZeros : Nat → Nat → Int → Nat × Int
  | 0, c, k => (c, k)
  | fuel + 1, c, k => if c % 10 = 0 && c ≠ 0 then dropZeros fuel (c / 10) (k + 1) else (c, k)

/-- The shortest decimal `c * 10 ^ k` of a number that is not zero. -/
def shortest (x : Binary64) : Nat × Int :=
  match (List.range 17).findSome? fun i => x.ofDigits? (i + 1) with
  | some (c, k) => dropZeros 20 c k
  | none => (x.mantissa, x.exponent)

end Binary64
end Bridgework
