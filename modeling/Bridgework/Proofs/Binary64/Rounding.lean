import Bridgework.Binary64.Basic
import Mathlib.Algebra.Order.Archimedean.Basic
import Mathlib.Algebra.Order.Field.Power
import Mathlib.Algebra.Order.Floor.Ring
import Mathlib.Algebra.Order.Round
import Mathlib.Data.Rat.Floor
import Mathlib.Tactic.Linarith

/-!
# Rounding to doubles

The exponent of a double is chosen so that its mantissa has 53 bits, or is the least one. With this exponent the
mantissa is rounded to a whole number, to the even one between two equally near. Whether the mantissa overflows
or not, the result depends on the value of the fraction alone, keeps the order of values, and no double is nearer.

- `Binary64.toRat` : the value of a double
- `roundEven` : rounding to whole numbers
- `Binary64.IsExponent`, `Binary64.Rounds` : the exponent of a value, and the value that is rounded with it
- `Binary64.Rounds.mono`, `Binary64.Rounds.nearest` : rounding keeps the order, and takes a nearest double
- `Binary64.ofRatio?_spec` : fractions are rounded so
- `Binary64.ofNat_mono`, `Binary64.toRat_ofNat` : whole numbers as doubles
-/

namespace Bridgework

/-! ## Whole numbers -/

/-- The nearest whole number, the even one between two equally near. -/
def roundEven (x : ℚ) : ℤ :=
  if 1 / 2 < Int.fract x ∨ Int.fract x = 1 / 2 ∧ ⌊x⌋ % 2 = 1 then ⌊x⌋ + 1 else ⌊x⌋

/-- The rounded value is at most one half away. -/
theorem abs_roundEven_sub_le (x : ℚ) : |(roundEven x : ℚ) - x| ≤ 1 / 2 := by
  have hfract := Int.fract_nonneg x
  have hlt := Int.fract_lt_one x
  have hsplit : (⌊x⌋ : ℚ) = x - Int.fract x := by rw [← Int.self_sub_fract]
  rw [roundEven, abs_le]
  split
  next h =>
    have hhalf : 1 / 2 ≤ Int.fract x := h.elim le_of_lt fun h => h.1.ge
    push_cast
    constructor <;> linarith
  next h =>
    have hhalf : Int.fract x ≤ 1 / 2 := not_lt.1 fun hlt => h (.inl hlt)
    constructor <;> linarith

/-- No whole number is nearer. -/
theorem abs_roundEven_sub_le_abs (x : ℚ) (n : ℤ) : |(roundEven x : ℚ) - x| ≤ |(n : ℚ) - x| := by
  rcases eq_or_ne n (roundEven x) with rfl | hne
  · exact le_rfl
  · have hone : (1 : ℚ) ≤ |(n : ℚ) - roundEven x| := by
      rw [← Int.cast_sub, ← Int.cast_abs]
      exact_mod_cast Int.one_le_abs (sub_ne_zero.2 hne)
    have htri := abs_sub_le (n : ℚ) x (roundEven x)
    have hround := abs_roundEven_sub_le x
    rw [abs_sub_comm x] at htri
    linarith

/-- Rounding keeps the order of values. -/
theorem roundEven_mono {x y : ℚ} (h : x ≤ y) : roundEven x ≤ roundEven y := by
  rcases h.eq_or_lt with rfl | hlt
  · exact le_rfl
  · -- Both are within one half of the rounded values, which would be at least one apart the other way round.
    by_contra hnot
    have hgap : (roundEven y : ℚ) + 1 ≤ roundEven x := by exact_mod_cast not_le.1 hnot
    have hx := (abs_le.1 (abs_roundEven_sub_le x)).2
    have hy := (abs_le.1 (abs_roundEven_sub_le y)).1
    linarith

theorem roundEven_intCast (n : ℤ) : roundEven n = n := by
  simp [roundEven]

/-- Rounding a quotient of whole numbers is rounding its value. -/
theorem roundQuotient_eq (n d : Nat) (hd : 0 < d) :
    (Binary64.roundQuotient n d : ℤ) = roundEven ((n : ℚ) / d) := by
  have hd' : (0 : ℚ) < d := Nat.cast_pos.2 hd
  have hfloor : ⌊(n : ℚ) / d⌋ = ((n / d : Nat) : ℤ) := by
    rw [Rat.floor_natCast_div_natCast, Int.natCast_div]
  have hfract : Int.fract ((n : ℚ) / d) = ((n % d : Nat) : ℚ) / d := Int.fract_div_natCast_eq_div_natCast_mod
  have habove : 1 / 2 < Int.fract ((n : ℚ) / d) ↔ d < 2 * (n % d) := by
    rw [hfract, div_lt_div_iff₀ two_pos hd', one_mul, mul_comm]
    exact_mod_cast Iff.rfl
  have hmiddle : Int.fract ((n : ℚ) / d) = 1 / 2 ↔ 2 * (n % d) = d := by
    rw [hfract, div_eq_div_iff hd'.ne' two_ne_zero, one_mul, mul_comm]
    exact_mod_cast Iff.rfl
  have hodd : ((n / d : Nat) : ℤ) % 2 = 1 ↔ n / d % 2 = 1 := by omega
  simp only [Binary64.roundQuotient, roundEven, habove, hmiddle, hfloor, hodd, Bool.or_eq_true, Bool.and_eq_true,
    decide_eq_true_eq, beq_iff_eq]
  split <;> simp

namespace Binary64

/-! ## Values -/

def toRat (x : Binary64) : ℚ := (if x.negative then -1 else 1) * (x.mantissa * 2 ^ x.exponent)

/-- The mantissa and the exponent are within their bounds. -/
structure Fits (x : Binary64) : Prop where
  mantissa : x.mantissa < 2 ^ 53
  least : leastExponent ≤ x.exponent
  most : x.exponent ≤ greatestExponent

/-- The fraction of a double is its absolute value. -/
theorem ratio_spec (x : Binary64) : 0 < x.ratio.2 ∧ (x.ratio.1 : ℚ) / x.ratio.2 = x.mantissa * 2 ^ x.exponent := by
  rw [ratio]
  split
  next h =>
    have hexponent : (2 : ℚ) ^ x.exponent = ((2 ^ x.exponent.toNat : Nat) : ℚ) := by
      rw [Nat.cast_pow, ← zpow_natCast, Int.toNat_of_nonneg h]
      rfl
    simp [hexponent]
  next h =>
    have hexponent : (2 : ℚ) ^ x.exponent = ((2 ^ (-x.exponent).toNat : Nat) : ℚ)⁻¹ := by
      rw [Nat.cast_pow, ← zpow_natCast, Int.toNat_of_nonneg (by omega), ← zpow_neg, neg_neg]
      rfl
    simp [hexponent, div_eq_mul_inv]

theorem toRat_of_nonnegative {x : Binary64} (h : x.negative = false) :
    x.toRat = (x.ratio.1 : ℚ) / x.ratio.2 := by
  rw [x.ratio_spec.2, toRat, h]
  simp

/-- The comparison of two doubles is that of their values. -/
theorem less_iff (x y : Binary64) : x.less y = true ↔ x.toRat < y.toRat := by
  obtain ⟨hx, hxvalue⟩ := x.ratio_spec
  obtain ⟨hy, hyvalue⟩ := y.ratio_spec
  have hx' : (0 : ℚ) < x.ratio.2 := Nat.cast_pos.2 hx
  have hy' : (0 : ℚ) < y.ratio.2 := Nat.cast_pos.2 hy
  have hxrat : x.toRat = (if x.negative then -(x.ratio.1 : ℚ) else x.ratio.1) / x.ratio.2 := by
    rw [toRat, ← hxvalue]
    split <;> ring
  have hyrat : y.toRat = (if y.negative then -(y.ratio.1 : ℚ) else y.ratio.1) / y.ratio.2 := by
    rw [toRat, ← hyvalue]
    split <;> ring
  rw [hxrat, hyrat, div_lt_div_iff₀ hx' hy', less, decide_eq_true_eq]
  rw [← Int.cast_lt (R := ℚ)]
  split <;> split <;> push_cast <;> simp [neg_mul]

theorem toRat_le (x : Binary64) : x.toRat ≤ x.mantissa * 2 ^ x.exponent := by
  have hnonneg : (0 : ℚ) ≤ x.mantissa * 2 ^ x.exponent := by positivity
  rw [toRat]
  split
  next => linarith
  next => rw [one_mul]

/-! ## Rounding with an exponent -/

/-- The exponent with which the mantissa of a value has 53 bits, or the least one if it has fewer. -/
structure IsExponent (x : ℚ) (e : ℤ) : Prop where
  least : leastExponent ≤ e
  below : x < 2 ^ (e + 53)
  above : e = leastExponent ∨ 2 ^ (e + 52) ≤ x

/-- The value is rounded to a whole number of units, which its exponent says. -/
def Rounds (x y : ℚ) : Prop := ∃ e, IsExponent x e ∧ y = roundEven (x / 2 ^ e) * 2 ^ e

theorem zpow_add_natCast (e : ℤ) (k : Nat) : (2 : ℚ) ^ (e + k) = (2 ^ k : ℤ) * 2 ^ e := by
  rw [zpow_add₀ two_ne_zero, zpow_natCast, mul_comm]
  push_cast
  rfl

namespace IsExponent

variable {x : ℚ} {e : ℤ}

/-- A rounded mantissa has at most one bit too many. -/
theorem round_le (h : IsExponent x e) : roundEven (x / 2 ^ e) ≤ 2 ^ 53 := by
  have hle : x / 2 ^ e ≤ ((2 ^ 53 : ℤ) : ℚ) := by
    rw [div_le_iff₀ (zpow_pos two_pos e), ← zpow_add_natCast]
    exact h.below.le
  exact (roundEven_mono hle).trans_eq (roundEven_intCast _)

/-- A mantissa that has 53 bits keeps them when it is rounded. -/
theorem le_round (h : IsExponent x e) (he : e ≠ leastExponent) : 2 ^ 52 ≤ roundEven (x / 2 ^ e) := by
  have hle : ((2 ^ 52 : ℤ) : ℚ) ≤ x / 2 ^ e := by
    rw [le_div_iff₀ (zpow_pos two_pos e), ← zpow_add_natCast]
    exact h.above.resolve_left he
  exact (roundEven_intCast _).symm.trans_le (roundEven_mono hle)

end IsExponent

namespace Rounds

variable {x x' y y' : ℚ}

/-- Rounding keeps the order of values. -/
theorem mono (h : Rounds x y) (h' : Rounds x' y') (hle : x ≤ x') : y ≤ y' := by
  obtain ⟨e, he, rfl⟩ := h
  obtain ⟨e', he', rfl⟩ := h'
  rcases lt_trichotomy e e' with hlt | rfl | hgt
  · -- A smaller unit: at most `2 ^ 53` of them are at most `2 ^ 52` of the greater ones.
    have hne : e' ≠ leastExponent := (he.least.trans_lt hlt).ne'
    calc (roundEven (x / 2 ^ e) : ℚ) * 2 ^ e
        ≤ (2 ^ 53 : ℤ) * 2 ^ e := by
          have := he.round_le
          gcongr
      _ = 2 ^ (e + (53 : Nat)) := (zpow_add_natCast e 53).symm
      _ ≤ 2 ^ (e' + (52 : Nat)) := zpow_le_zpow_right₀ one_le_two (by omega)
      _ = (2 ^ 52 : ℤ) * 2 ^ e' := zpow_add_natCast e' 52
      _ ≤ roundEven (x' / 2 ^ e') * 2 ^ e' := by
          have := he'.le_round hne
          gcongr
  · have hround : roundEven (x / 2 ^ e) ≤ roundEven (x' / 2 ^ e) :=
      roundEven_mono (div_le_div_of_nonneg_right hle (zpow_nonneg two_pos.le e))
    gcongr
  · have hne : e ≠ leastExponent := (he'.least.trans_lt hgt).ne'
    have hpow : (2 : ℚ) ^ (e' + 53) ≤ 2 ^ (e + 52) := zpow_le_zpow_right₀ one_le_two (by omega)
    exact absurd hle (not_le.2 ((he'.below.trans_le hpow).trans_le (he.above.resolve_left hne)))

/-- No whole number of units is nearer. -/
theorem abs_sub_le_unit {e : ℤ} (k : ℤ) :
    |(roundEven (x / 2 ^ e) : ℚ) * 2 ^ e - x| ≤ |(k : ℚ) * 2 ^ e - x| := by
  have hpos : (0 : ℚ) < 2 ^ e := zpow_pos two_pos e
  have hscale : ∀ n : ℤ, |(n : ℚ) * 2 ^ e - x| = |(n : ℚ) - x / 2 ^ e| * 2 ^ e := by
    intro n
    rw [← abs_of_pos hpos, ← abs_mul, abs_of_pos hpos, sub_mul, div_mul_cancel₀ x hpos.ne']
  rw [hscale, hscale]
  exact mul_le_mul_of_nonneg_right (abs_roundEven_sub_le_abs _ k) hpos.le

/-- No double is nearer. -/
theorem nearest (h : Rounds x y) {z : Binary64} (hz : z.Fits) : |y - x| ≤ |z.toRat - x| := by
  obtain ⟨e, he, rfl⟩ := h
  rcases le_or_gt e z.exponent with hle | hlt
  · -- The double is a whole number of units.
    obtain ⟨k, hk⟩ := Int.le.dest hle
    have hunits : z.toRat = (((if z.negative then -1 else 1) * (z.mantissa * 2 ^ k) : ℤ) : ℚ) * 2 ^ e := by
      rw [toRat, ← hk, zpow_add_natCast]
      split <;> push_cast <;> ring
    rw [hunits]
    exact abs_sub_le_unit _
  · -- The double has smaller units, and is below all values of this exponent.
    have hne : e ≠ leastExponent := (hz.least.trans_lt hlt).ne'
    have habove : ((2 ^ 52 : ℤ) : ℚ) * 2 ^ e ≤ x := by
      rw [← zpow_add_natCast]
      exact he.above.resolve_left hne
    have hsmall : z.toRat ≤ (2 ^ 52 : ℤ) * 2 ^ e := by
      have hpos : (0 : ℚ) < 2 ^ z.exponent := zpow_pos two_pos _
      have hmantissa : (z.mantissa : ℚ) ≤ (2 ^ 53 : ℤ) := by exact_mod_cast hz.mantissa.le
      calc z.toRat
          ≤ z.mantissa * 2 ^ z.exponent := z.toRat_le
        _ ≤ (2 ^ 53 : ℤ) * 2 ^ z.exponent := by gcongr
        _ = 2 ^ (z.exponent + (53 : Nat)) := (zpow_add_natCast _ 53).symm
        _ ≤ 2 ^ (e + (52 : Nat)) := zpow_le_zpow_right₀ one_le_two (by omega)
        _ = (2 ^ 52 : ℤ) * 2 ^ e := zpow_add_natCast e 52
    calc |(roundEven (x / 2 ^ e) : ℚ) * 2 ^ e - x|
        ≤ |((2 ^ 52 : ℤ) : ℚ) * 2 ^ e - x| := abs_sub_le_unit _
      _ ≤ |z.toRat - x| := by
          rw [abs_of_nonpos (sub_nonpos.2 habove), abs_of_nonpos (sub_nonpos.2 (hsmall.trans habove))]
          linarith

/-- Doubles stay as they are. -/
theorem eq_toRat {z : Binary64} (h : Rounds z.toRat y) (hz : z.Fits) : y = z.toRat := by
  have hzero := h.nearest hz
  rw [sub_self, abs_zero] at hzero
  exact sub_eq_zero.1 (abs_nonpos_iff.1 hzero)

end Rounds

/-! ## Fractions -/

/-- Scaling divides the value by a power of two. -/
theorem scale_spec (n : Nat) {d : Nat} (hd : 0 < d) (e : ℤ) :
    0 < (scale n d e).2 ∧ ((scale n d e).1 : ℚ) / (scale n d e).2 = n / d / 2 ^ e := by
  rw [scale]
  split
  -- A power of two that makes the denominator greater.
  next h =>
    have hexponent : (2 : ℚ) ^ e = ((2 ^ e.toNat : Nat) : ℚ) := by
      rw [Nat.cast_pow, ← zpow_natCast, Int.toNat_of_nonneg h]
      rfl
    refine ⟨Nat.mul_pos hd (Nat.pow_pos two_pos), ?_⟩
    rw [hexponent, div_div, ← Nat.cast_mul]
    rfl
  -- A power of two that makes the numerator greater.
  next h =>
    have hexponent : (2 : ℚ) ^ e = ((2 ^ (-e).toNat : Nat) : ℚ)⁻¹ := by
      rw [Nat.cast_pow, ← zpow_natCast, Int.toNat_of_nonneg (by omega), ← zpow_neg, neg_neg]
      rfl
    refine ⟨hd, ?_⟩
    rw [hexponent, div_inv_eq_mul, div_mul_eq_mul_div, ← Nat.cast_mul]
    rfl

/-- A fraction is between the powers of two that the lengths of its parts say. -/
theorem div_mem_log2 {n d : Nat} (hn : n ≠ 0) (hd : 0 < d) :
    (2 : ℚ) ^ ((n.log2 : ℤ) - d.log2 - 1) ≤ n / d ∧ (n : ℚ) / d < 2 ^ ((n.log2 : ℤ) - d.log2 + 1) := by
  have hd' : (0 : ℚ) < d := Nat.cast_pos.2 hd
  have hpow : ∀ k : Nat, ((2 ^ k : Nat) : ℚ) = 2 ^ (k : ℤ) := fun k => by rw [Nat.cast_pow, zpow_natCast]; rfl
  -- Both numbers lie between two neighbouring powers of two.
  have hn1 : (2 : ℚ) ^ (n.log2 : ℤ) ≤ n := hpow _ ▸ Nat.cast_le.2 (Nat.log2_self_le hn)
  have hn2 : (n : ℚ) < 2 ^ ((n.log2 + 1 : Nat) : ℤ) := hpow _ ▸ Nat.cast_lt.2 Nat.lt_log2_self
  have hd1 : (2 : ℚ) ^ (d.log2 : ℤ) ≤ d := hpow _ ▸ Nat.cast_le.2 (Nat.log2_self_le hd.ne')
  have hd2 : (d : ℚ) < 2 ^ ((d.log2 + 1 : Nat) : ℤ) := hpow _ ▸ Nat.cast_lt.2 Nat.lt_log2_self
  constructor
  -- From below: the least numerator over the greatest denominator.
  · rw [le_div_iff₀ hd']
    calc (2 : ℚ) ^ ((n.log2 : ℤ) - d.log2 - 1) * d
        ≤ 2 ^ ((n.log2 : ℤ) - d.log2 - 1) * 2 ^ ((d.log2 + 1 : Nat) : ℤ) := by gcongr
      _ = 2 ^ (n.log2 : ℤ) := by
          rw [← zpow_add₀ two_ne_zero]
          congr 1
          push_cast
          ring
      _ ≤ n := hn1
  -- From above: the greatest numerator over the least denominator.
  · rw [div_lt_iff₀ hd']
    calc (n : ℚ)
        < 2 ^ ((n.log2 + 1 : Nat) : ℤ) := hn2
      _ = 2 ^ ((n.log2 : ℤ) - d.log2 + 1) * 2 ^ (d.log2 : ℤ) := by
          rw [← zpow_add₀ two_ne_zero]
          congr 1
          push_cast
          ring
      _ ≤ 2 ^ ((n.log2 : ℤ) - d.log2 + 1) * d := by gcongr

/-- The length of the parts gives the exponent but for one, and the quotient decides between the two. -/
theorem isExponent_exponentOf {n d : Nat} (hn : n ≠ 0) (hd : 0 < d) :
    IsExponent ((n : ℚ) / d) (exponentOf n d) := by
  obtain ⟨hlow, hhigh⟩ := div_mem_log2 hn hd
  rw [exponentOf]
  generalize he : max leastExponent ((n.log2 : ℤ) - d.log2 - 53) = e
  obtain ⟨hb, hvalue⟩ := scale_spec n hd e
  generalize scale n d e = s at hb hvalue
  obtain ⟨a, b⟩ := s
  -- The quotient is below `2 ^ 53` exactly if the value is below `2 ^ 53` units.
  have hfits : a / b < 0x20000000000000 ↔ (n : ℚ) / d < 2 ^ (e + 53) := by
    have hb' : (0 : ℚ) < b := Nat.cast_pos.2 hb
    have hpow : (2 : ℚ) ^ (e + 53) = (2 ^ 53 : ℤ) * 2 ^ e := zpow_add_natCast e 53
    rw [hpow, ← div_lt_iff₀ (zpow_pos two_pos e), ← hvalue, div_lt_iff₀ hb', Nat.div_lt_iff_lt_mul hb]
    norm_cast
  have hleast : leastExponent ≤ e := he ▸ le_max_left _ _
  simp only
  split
  next h =>
    refine ⟨hleast, hfits.1 h, ?_⟩
    rcases max_choice leastExponent ((n.log2 : ℤ) - d.log2 - 53) with hmax | hmax
    · exact .inl (he.symm.trans hmax)
    · refine .inr ((le_of_eq ?_).trans hlow)
      rw [← he, hmax]
      congr 1
      ring
  next h =>
    refine ⟨by omega, hhigh.trans_le (zpow_le_zpow_right₀ one_le_two ?_), .inr ?_⟩
    · have := le_max_right leastExponent ((n.log2 : ℤ) - d.log2 - 53)
      omega
    · have hpow : e + 1 + 52 = e + 53 := by ring
      rw [hpow]
      exact not_lt.1 fun hlt => h (hfits.2 hlt)

/-- A normal double beyond the greatest exponent has reached `2 ^ 1024`. -/
theorem le_mul_zpow_of_greatest_lt {m : Nat} {e : ℤ} (he : greatestExponent < e) (hm : 2 ^ 52 ≤ m) :
    (2 : ℚ) ^ (1024 : ℤ) ≤ m * 2 ^ e := by
  have hlarge : 1024 ≤ e + (52 : Nat) := by
    have : greatestExponent = 971 := rfl
    omega
  have hmantissa : ((2 ^ 52 : ℤ) : ℚ) ≤ m := by exact_mod_cast hm
  calc (2 : ℚ) ^ (1024 : ℤ)
      ≤ 2 ^ (e + (52 : Nat)) := zpow_le_zpow_right₀ one_le_two hlarge
    _ = (2 ^ 52 : ℤ) * 2 ^ e := zpow_add_natCast e 52
    _ ≤ m * 2 ^ e := by gcongr

/-- A mantissa below `2 ^ 53` stays as it is. -/
theorem pack?_of_lt {m : Nat} {e : ℤ} (hm : m < 2 ^ 53) :
    pack? false m e = if e ≤ greatestExponent then some ⟨false, m, e⟩ else none := by
  have hne : m ≠ 0x20000000000000 := hm.ne
  rw [pack?, if_neg hne]

/-- One that has reached it has one bit more, and half of it is taken of the next unit. -/
theorem pack?_two_pow (e : ℤ) : pack? false (2 ^ 53) e = pack? false (2 ^ 52) (e + 1) := by
  have hhalf : (2 ^ 52 : Nat) < 2 ^ 53 := by norm_num
  rw [pack?_of_lt hhalf]
  rfl

/-- A mantissa that fits makes a double of the same value, unless that has reached `2 ^ 1024`. -/
theorem pack?_spec_of_lt {m : Nat} {e : ℤ} (hm : m < 2 ^ 53) (he : leastExponent ≤ e)
    (hlow : e ≠ leastExponent → 2 ^ 52 ≤ m) :
    (∃ z, pack? false m e = some z ∧ z.negative = false ∧ z.Fits ∧ z.toRat = m * 2 ^ e) ∨
      pack? false m e = none ∧ 2 ^ (1024 : ℤ) ≤ (m : ℚ) * 2 ^ e := by
  rw [pack?_of_lt hm]
  split
  next hgreatest =>
    refine .inl ⟨_, rfl, rfl, ⟨hm, he, hgreatest⟩, ?_⟩
    simp [toRat]
  next hgreatest =>
    have hleast : e ≠ leastExponent := by
      rintro rfl
      exact hgreatest (by decide)
    exact .inr ⟨rfl, le_mul_zpow_of_greatest_lt (not_le.1 hgreatest) (hlow hleast)⟩

/-- So does a mantissa that was rounded up to `2 ^ 53`. -/
theorem pack?_spec {m : Nat} {e : ℤ} (hm : m ≤ 2 ^ 53) (he : leastExponent ≤ e)
    (hlow : e ≠ leastExponent → 2 ^ 52 ≤ m) :
    (∃ z, pack? false m e = some z ∧ z.negative = false ∧ z.Fits ∧ z.toRat = m * 2 ^ e) ∨
      pack? false m e = none ∧ 2 ^ (1024 : ℤ) ≤ (m : ℚ) * 2 ^ e := by
  rcases hm.eq_or_lt with rfl | hm
  · have hvalue : ((2 ^ 53 : Nat) : ℚ) * 2 ^ e = (2 ^ 52 : Nat) * 2 ^ (e + 1) := by
      rw [zpow_add₀ two_ne_zero]
      norm_num
      ring
    rw [hvalue, pack?_two_pow]
    exact pack?_spec_of_lt (by norm_num) (by omega) fun _ => le_rfl
  · exact pack?_spec_of_lt hm he hlow

theorem rounds_zero : Rounds 0 0 := by
  refine ⟨leastExponent, ⟨le_rfl, by positivity, .inl rfl⟩, ?_⟩
  rw [zero_div, ← Int.cast_zero, roundEven_intCast, Int.cast_zero, zero_mul]

theorem fits_zero : (zero false).Fits := ⟨by decide, by decide, by decide⟩

@[simp] theorem toRat_zero : (zero false).toRat = 0 := by simp [toRat, zero]

/-- A fraction is rounded, and the result is a double unless it has reached `2 ^ 1024`. -/
theorem ofRatio?_spec (n : Nat) {d : Nat} (hd : 0 < d) :
    ∃ y, Rounds ((n : ℚ) / d) y ∧
      ((∃ z, ofRatio? false n d = some z ∧ z.negative = false ∧ z.Fits ∧ z.toRat = y) ∨
        ofRatio? false n d = none ∧ 2 ^ (1024 : ℤ) ≤ y) := by
  rcases eq_or_ne n 0 with rfl | hn
  · refine ⟨0, ?_, .inl ⟨zero false, rfl, rfl, fits_zero, toRat_zero⟩⟩
    rw [Nat.cast_zero, zero_div]
    exact rounds_zero
  -- The quotient is cut into a mantissa and an exponent; what is rounded is the mantissa.
  · have he := isExponent_exponentOf hn hd
    obtain ⟨hb, hvalue⟩ := scale_spec n hd (exponentOf n d)
    have hround := roundQuotient_eq (scale n d (exponentOf n d)).1 _ hb
    rw [hvalue] at hround
    refine ⟨_, ⟨_, he, rfl⟩, ?_⟩
    have hmantissa := he.round_le
    have hlow := he.le_round
    rw [ofRatio?, if_neg hn, ← hround, Int.cast_natCast]
    rw [← hround] at hmantissa hlow
    exact pack?_spec (by exact_mod_cast hmantissa) he.least fun hne => by exact_mod_cast hlow hne

/-! ## Whole numbers as doubles -/

theorem Fits.toRat_le_greatest {z : Binary64} (hz : z.Fits) : z.toRat ≤ greatest.toRat := by
  have hmantissa : (z.mantissa : ℚ) ≤ (0x1fffffffffffff : Nat) := by exact_mod_cast Nat.le_of_lt_succ hz.mantissa
  have hpow : (2 : ℚ) ^ z.exponent ≤ 2 ^ greatestExponent := zpow_le_zpow_right₀ one_le_two hz.most
  calc z.toRat
      ≤ z.mantissa * 2 ^ z.exponent := z.toRat_le
    _ ≤ (0x1fffffffffffff : Nat) * 2 ^ greatestExponent := by gcongr
    _ = greatest.toRat := by simp [toRat, greatest]

/-- The next double after the greatest would be `2 ^ 1024`. -/
theorem toRat_greatest_lt : greatest.toRat < 2 ^ (1024 : ℤ) := by
  have hpow : (2 : ℚ) ^ (1024 : ℤ) = (2 ^ 53 : ℤ) * 2 ^ greatestExponent := zpow_add_natCast greatestExponent 53
  have hmantissa : ((0x1fffffffffffff : Nat) : ℚ) < (2 ^ 53 : ℤ) := by norm_num
  have hvalue : greatest.toRat = (0x1fffffffffffff : Nat) * 2 ^ greatestExponent := by simp [toRat, greatest]
  rw [hpow, hvalue]
  gcongr

/-- A whole number is rounded, and stays at the greatest double if it would be greater. -/
theorem ofNat_spec (n : Nat) :
    (ofNat n).negative = false ∧ ∃ y, Rounds n y ∧ (ofNat n).toRat = min y greatest.toRat := by
  obtain ⟨y, hy, hresult⟩ := ofRatio?_spec n one_pos
  rw [Nat.cast_one, div_one] at hy
  rw [ofNat]
  rcases hresult with ⟨z, hz, hsign, hfits, rfl⟩ | ⟨hnone, hlarge⟩
  · rw [hz]
    exact ⟨hsign, z.toRat, hy, (min_eq_left hfits.toRat_le_greatest).symm⟩
  · rw [hnone]
    exact ⟨rfl, y, hy, (min_eq_right (toRat_greatest_lt.le.trans hlarge)).symm⟩

/-- Greater numbers do not become lesser doubles. -/
theorem ofNat_mono {m n : Nat} (h : m ≤ n) : (ofNat m).toRat ≤ (ofNat n).toRat := by
  obtain ⟨-, y, hy, hm⟩ := ofNat_spec m
  obtain ⟨-, y', hy', hn⟩ := ofNat_spec n
  rw [hm, hn]
  exact min_le_min_right _ (hy.mono hy' (Nat.cast_le.2 h))

/-- Numbers below `2 ^ 53` are doubles. -/
theorem toRat_ofNat {n : Nat} (h : n < 2 ^ 53) : (ofNat n).toRat = n := by
  obtain ⟨-, y, hy, hn⟩ := ofNat_spec n
  have hexponent : leastExponent ≤ 0 ∧ 0 ≤ greatestExponent := by decide
  have hfits : Fits ⟨false, n, 0⟩ := ⟨h, hexponent.1, hexponent.2⟩
  have hvalue : toRat ⟨false, n, 0⟩ = n := by simp [toRat]
  have hexact : y = n := hvalue ▸ Rounds.eq_toRat (hvalue.symm ▸ hy) hfits
  rw [hn, hexact]
  exact min_eq_left (hvalue ▸ hfits.toRat_le_greatest)

theorem one_le_toRat_ofNat {n : Nat} (h : 0 < n) : 1 ≤ (ofNat n).toRat := by
  have hone : (ofNat 1).toRat = 1 := by simpa using toRat_ofNat (n := 1) (by norm_num)
  exact hone ▸ ofNat_mono h

theorem rounds_one : Rounds 1 1 := by
  obtain ⟨y, hy, -⟩ := ofRatio?_spec 1 one_pos
  have hone : Fits ⟨false, 1, 0⟩ := ⟨by decide, by decide, by decide⟩
  have hvalue : toRat ⟨false, 1, 0⟩ = 1 := by simp [toRat]
  have hexact : y = 1 := hvalue ▸ Rounds.eq_toRat (by simpa [hvalue] using hy) hone
  simpa [hexact] using hy

/-- The quotient of doubles is rounded once. -/
theorem div?_spec {x y : Binary64} (hx : x.negative = false) (hy : y.negative = false) (hpos : 0 < y.toRat) :
    ∃ q, Rounds (x.toRat / y.toRat) q ∧
      ((∃ z, x.div? y = some z ∧ z.negative = false ∧ z.Fits ∧ z.toRat = q) ∨ x.div? y = none ∧ 2 ^ (1024 : ℤ) ≤ q) := by
  have hxden := x.ratio_spec.1
  have hyden : (0 : ℚ) < y.ratio.2 := Nat.cast_pos.2 y.ratio_spec.1
  have hynum : 0 < y.ratio.1 := by
    rw [toRat_of_nonnegative hy] at hpos
    exact_mod_cast (div_pos_iff_of_pos_right hyden).1 hpos
  have hquotient : x.toRat / y.toRat = ((x.ratio.1 * y.ratio.2 : Nat) : ℚ) / (x.ratio.2 * y.ratio.1 : Nat) := by
    rw [toRat_of_nonnegative hx, toRat_of_nonnegative hy, div_div_div_eq, Nat.cast_mul, Nat.cast_mul]
  have hsign : (x.negative != y.negative) = false := by rw [hx, hy]; rfl
  rw [hquotient, div?, hsign]
  exact ofRatio?_spec _ (Nat.mul_pos hxden hynum)

end Binary64

end Bridgework
