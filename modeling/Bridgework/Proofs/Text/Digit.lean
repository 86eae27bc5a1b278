import Bridgework.Text.Digit

/-!
# Reading digits back

The digits of a number, in any base whose digits can be read, are read as that number, also behind zeros
that fill them up to a width.

- `Text.readDigits_toDigits` : the digits of a number, in any base
- `Text.head?_toDigits_ne_zero` : only zero itself begins with a zero
- `Text.isAlphanum_of_mem_toDigits` : digits are letters and decimal digits
- `Text.natOfHex?_hexPadded` : a number filled up with zeros
- `Text.IsHexText`, `Text.natOfHex?_of_isHexText` : digits of either case behind any number of zeros
-/

namespace Bridgework
namespace Text

variable {value? : Char → Option Nat} {base : Nat}

/-- Digits are read one after another. -/
theorem readDigits_append (acc : Nat) (s t : List Char) :
    readDigits value? base acc (s ++ t) =
      (readDigits value? base acc s).bind fun n => readDigits value? base n t := by
  induction s generalizing acc with
  | nil => rfl
  | cons c s ih =>
    simp only [List.cons_append, readDigits]
    cases value? c with
    | none => rfl
    | some d => exact ih (acc * base + d)

/-- `value?` knows the digits of the base. -/
def Knows (value? : Char → Option Nat) (base : Nat) : Prop :=
  ∀ d < base, value? (Nat.digitChar d) = some d

/-- The digits of a number are read back, in every base. -/
theorem readDigits_toDigits (hbase : 1 < base) (h : Knows value? base) (n : Nat) :
    readDigits value? base 0 (Nat.toDigits base n) = some n := by
  -- The last digit is the remainder, and the digits before it are those of the quotient.
  induction n using Nat.strongRecOn with
  | ind n ih =>
    rcases Nat.lt_or_ge n base with hn | hn
    · rw [Nat.toDigits_of_lt_base hn]
      simp [readDigits, h n hn]
    · have hquotient : n / base < n := Nat.div_lt_self (by omega) hbase
      have hlast := h (n % base) (Nat.mod_lt n (by omega))
      rw [Nat.toDigits_of_base_le hbase hn, readDigits_append, ih (n / base) hquotient]
      simp only [Option.bind_some, readDigits, hlast, Option.some.injEq]
      exact Nat.div_add_mod' n base

/-- No number but zero has a zero in front. -/
theorem head?_toDigits_ne_zero (hbase : 1 < base) {n : Nat} (hn : n ≠ 0) :
    (Nat.toDigits base n).head? ≠ some '0' := by
  induction n using Nat.strongRecOn with
  | ind n ih =>
    rcases Nat.lt_or_ge n base with hlt | hge
    · rw [Nat.toDigits_of_lt_base hlt]
      intro hzero
      exact hn (Nat.zero_eq_digitChar.1 (Option.some.inj hzero).symm)
    · have hquotient : n / base ≠ 0 := by
        have hpos : 0 < n / base := Nat.div_pos hge (by omega)
        omega
      have hfirst := ih (n / base) (Nat.div_lt_self (by omega) hbase) hquotient
      rw [Nat.toDigits_of_base_le hbase hge]
      rcases hdigits : Nat.toDigits base (n / base) with _ | ⟨c, s⟩
      · exact absurd hdigits Nat.toDigits_ne_nil
      · rwa [hdigits] at hfirst

theorem isAlphanum_of_mem_toDigits (hbase : 1 < base) (hle : base ≤ 16) {n : Nat} {c : Char}
    (hc : c ∈ Nat.toDigits base n) : c.isAlphanum = true := by
  have hdigit : ∀ d < 16, (Nat.digitChar d).isAlphanum = true := by decide
  induction n using Nat.strongRecOn with
  | ind n ih =>
    rcases Nat.lt_or_ge n base with hlt | hge
    · rw [Nat.toDigits_of_lt_base hlt, List.mem_singleton] at hc
      rw [hc]
      exact hdigit n (by omega)
    · rw [Nat.toDigits_of_base_le hbase hge, List.mem_append, List.mem_singleton] at hc
      rcases hc with hc | rfl
      · exact ih (n / base) (Nat.div_lt_self (by omega) hbase) hc
      · exact hdigit _ (Nat.lt_of_lt_of_le (Nat.mod_lt n (by omega)) hle)

/-- A character of a class is none that is not. -/
theorem ne_of_class {p : Char → Bool} {c d : Char} (hc : p c = true) (hd : p d = false) : c ≠ d := by
  rintro rfl
  rw [hc] at hd
  cases hd

/-! ## Decimal and hexadecimal digits -/

theorem knows_digit? : Knows digit? 10 := by
  unfold Knows
  decide

theorem knows_hexDigit? : Knows hexDigit? 16 := by
  unfold Knows
  decide

theorem natOfDecimal?_toDigits (n : Nat) : natOfDecimal? (Nat.toDigits 10 n) = some n := by
  have hread := readDigits_toDigits (by decide) knows_digit? n
  rcases hdigits : Nat.toDigits 10 n with _ | ⟨c, s⟩
  · exact absurd hdigits Nat.toDigits_ne_nil
  · rwa [hdigits] at hread

theorem exists_digit_cons (n : Nat) : ∃ c s, c.isDigit = true ∧ Nat.toDigits 10 n = c :: s := by
  rcases hcons : Nat.toDigits 10 n with _ | ⟨c, s⟩
  · exact absurd hcons Nat.toDigits_ne_nil
  · have hc : c ∈ Nat.toDigits 10 n := hcons ▸ List.mem_cons_self
    exact ⟨c, s, Nat.isDigit_of_mem_toDigits (by decide) (by decide) hc, rfl⟩

theorem readDigits_zeros (width : Nat) :
    readDigits hexDigit? 16 0 (List.replicate width '0') = some 0 := by
  induction width with
  | zero => rfl
  | succ width ih => exact ih

/-- Zeros in front make no difference. -/
theorem natOfHex?_hexPadded (width n : Nat) : natOfHex? (hexPadded width n).toList = some n := by
  let zeros := List.replicate (width - (Nat.toDigits 16 n).length) '0'
  have hread : readDigits hexDigit? 16 0 (zeros ++ Nat.toDigits 16 n) = some n := by
    rw [readDigits_append, readDigits_zeros]
    exact readDigits_toDigits (by decide) knows_hexDigit? n
  rw [hexPadded, String.toList_ofList]
  rcases hdigits : zeros ++ Nat.toDigits 16 n with _ | ⟨c, s⟩
  · exact absurd (List.append_eq_nil_iff.1 hdigits).2 Nat.toDigits_ne_nil
  · simpa only [natOfHex?, zeros, hdigits] using hread

theorem exists_hexPadded_four {n : Nat} (h : n < 65536) : ∃ x y z w, (hexPadded 4 n).toList = [x, y, z, w] := by
  have hlength : (hexPadded 4 n).toList.length = 4 := by
    have hle : (Nat.toDigits 16 n).length ≤ 4 := (Nat.length_toDigits_le_iff (by decide) (by decide)).2 h
    rw [hexPadded, String.toList_ofList, List.length_append, List.length_replicate]
    omega
  rcases hdigits : (hexPadded 4 n).toList with _ | ⟨x, _ | ⟨y, _ | ⟨z, _ | ⟨w, _ | ⟨v, rest⟩⟩⟩⟩⟩
  case cons.cons.cons.cons.nil => exact ⟨x, y, z, w, rfl⟩
  all_goals simp [hdigits] at hlength

/-! ## Either case -/

/-- Hexadecimal digits of a number, each in either case, behind any number of zeros. -/
def IsHexText (digits : List Char) (n : Nat) : Prop :=
  ∃ zeros, digits.map Char.toLower = List.replicate zeros '0' ++ Nat.toDigits 16 n

theorem readDigits_map {f : Char → Char} (hf : ∀ c, value? (f c) = value? c) (acc : Nat) (s : List Char) :
    readDigits value? base acc (s.map f) = readDigits value? base acc s := by
  induction s generalizing acc with
  | nil => rfl
  | cons c s ih =>
    simp only [List.map_cons, readDigits, hf]
    cases value? c with
    | none => rfl
    | some d => exact ih (acc * base + d)

theorem hexDigit?_toLower (c : Char) : hexDigit? c.toLower = hexDigit? c := by
  by_cases hupper : 65 ≤ c.toNat ∧ c.toNat ≤ 90
  · have hletters : ∀ n < 26, hexDigit? (Char.ofNat (n + 65)).toLower = hexDigit? (Char.ofNat (n + 65)) := by
      decide
    have hc : c = Char.ofNat (c.toNat - 65 + 65) := by
      rw [Nat.sub_add_cancel hupper.1, Char.ofNat_toNat]
    rw [hc]
    exact hletters _ (by omega)
  · -- Only the letters from A to Z have another lower case.
    have hself : c.toLower = c := by
      unfold Char.toLower
      exact dif_neg hupper
    rw [hself]

/-- Whatever is read as digits consists of digits. -/
theorem isSome_of_readDigits {acc n : Nat} {s : List Char} (h : readDigits value? base acc s = some n) :
    ∀ c ∈ s, (value? c).isSome = true := by
  induction s generalizing acc with
  | nil => exact fun c hc => absurd hc List.not_mem_nil
  | cons c s ih =>
    rw [readDigits] at h
    cases hc : value? c with
    | none => simp [hc] at h
    | some d =>
      rw [hc] at h
      rintro c' hc'
      rcases List.mem_cons.1 hc' with rfl | hc'
      · simp [hc]
      · exact ih h c' hc'

/-- A text in base sixteen is read as the number that it tells. -/
theorem natOfHex?_of_isHexText {digits : List Char} {n : Nat} (h : IsHexText digits n) :
    natOfHex? digits = some n := by
  obtain ⟨zeros, hdigits⟩ := h
  have hread : readDigits hexDigit? 16 0 digits = some n := by
    calc
      readDigits hexDigit? 16 0 digits = readDigits hexDigit? 16 0 (digits.map Char.toLower) :=
        (readDigits_map hexDigit?_toLower 0 digits).symm
      _ = some n := by
        rw [hdigits, readDigits_append, readDigits_zeros]
        exact readDigits_toDigits (by decide) knows_hexDigit? n
  cases digits with
  | nil =>
    have hnil := (List.append_eq_nil_iff.1 hdigits.symm).2
    exact absurd hnil Nat.toDigits_ne_nil
  | cons c s => exact hread

end Text
end Bridgework
