import Bridgework.Proofs.Text.Digit
import Bridgework.Toml.Reader

/-!
# Written texts and numbers

Of the many ways to write a value, one is enough for a text and one for a number. Each is read as it is
written wherever the line ends after it.

- `Toml.Scalar`, `Toml.Scalar.write` : a text between quotation marks, or the digits of a number
- `Toml.string?_write`, `Toml.numeric?_toDigits`, `Toml.value?_write` : the reader takes it and leaves the rest
-/

namespace Bridgework
namespace Toml

/-- A character between quotation marks. -/
def writeChar (c : Char) : List Char :=
  if c = '"' ∨ c = '\\' then ['\\', c]
  else if isVisible c then [c]
  else '\\' :: 'u' :: (Text.hexPadded 4 c.toNat).toList

/-- A text or a number. -/
inductive Scalar where
  | text (s : String)
  | natural (n : Nat)
  deriving DecidableEq, Repr

namespace Scalar

def value : Scalar → Toml
  | .text s => .text s
  | .natural n => .integer n

def write : Scalar → List Char
  | .text s => '"' :: (s.toList.flatMap writeChar ++ ['"'])
  | .natural n => Nat.toDigits 10 n

/-- A number fits into a signed word of 64 bits. -/
def Fits : Scalar → Prop
  | .text _ => True
  | .natural n => n < 0x8000000000000000

end Scalar

/-! ## Strings -/

/-- A character is read back from its four digits. -/
theorem charOfHex?_hexPadded (c : Char) : charOfHex? (Text.hexPadded 4 c.toNat).toList = some c := by
  have hvalid : c.toNat.isValidChar := c.valid
  rw [charOfHex?, Text.natOfHex?_hexPadded, Option.bind_some, if_pos hvalid, Char.ofNat_toNat]

theorem toNat_lt_of_not_isVisible {c : Char} (h : isVisible c = false) : c.toNat < 0x80 := by
  simp only [isVisible, Bool.or_eq_false_iff, decide_eq_false_iff_not] at h
  omega

/-- A character that is written is read back as itself. -/
theorem basicBody_writeChar (c : Char) {r t s : List Char} (h : basicBody r = some (t, s)) :
    basicBody (writeChar c ++ r) = some (c :: t, s) := by
  unfold writeChar
  split
  · next hc => rcases hc with rfl | rfl <;> simp [basicBody, escape?, h]
  · next hc =>
    rw [not_or] at hc
    split
    · next hvisible => simp [basicBody, hc, hvisible, h]
    · next hvisible =>
      have hlt := toNat_lt_of_not_isVisible (Bool.eq_false_iff.2 hvisible)
      have hread := charOfHex?_hexPadded c
      obtain ⟨x, y, z, w, hdigits⟩ := Text.exists_hexPadded_four (Nat.lt_trans hlt (by decide))
      rw [hdigits] at hread ⊢
      simp [basicBody, hread, h]

/-- The text of a string is read back up to the quotation mark that ends it. -/
theorem basicBody_write (s r : List Char) : basicBody (s.flatMap writeChar ++ '"' :: r) = some (s, r) := by
  induction s with
  | nil => rfl
  | cons c s ih =>
    rw [List.flatMap_cons, List.append_assoc]
    exact basicBody_writeChar c ih

/-- No character is written with a quotation mark in front. -/
theorem head?_writeChar (c : Char) (r : List Char) : (writeChar c ++ r).head? ≠ some '"' := by
  unfold writeChar
  split
  · simp
  · next hc =>
    rw [not_or] at hc
    split
    · simpa using hc.1
    · simp

/-- A string with one opening mark, unless two more follow. -/
theorem string?_of_basicBody {w t r : List Char} (hw : ¬ ['"', '"'] <+: w) (h : basicBody w = some (t, r)) :
    string? ('"' :: w) = some (String.ofList t, r) := by
  rcases w with _ | ⟨c, _ | ⟨d, w⟩⟩
  · simp [string?, h]
  · simp [string?, h]
  · have hcd : c = '"' → d ≠ '"' := by
      rintro rfl rfl
      exact hw ⟨w, rfl⟩
    by_cases hc : c = '"'
    · subst hc
      simp [string?, hcd rfl, h]
    · simp [string?, hc, h]

/-- A string that is written is read back. -/
theorem string?_write (s : String) {r : List Char} (hr : r.head? ≠ some '"') :
    string? ('"' :: (s.toList.flatMap writeChar ++ '"' :: r)) = some (s, r) := by
  -- Two more marks would open a text of many lines. An empty text has one of them, its own end.
  have hmarks : ¬ ['"', '"'] <+: s.toList.flatMap writeChar ++ '"' :: r := by
    cases s.toList with
    | nil =>
      rintro ⟨t, ht⟩
      obtain rfl : '"' :: t = r := List.cons.inj ht |>.2
      exact hr rfl
    | cons c cs =>
      rw [List.flatMap_cons, List.append_assoc]
      rintro ⟨t, ht⟩
      refine head?_writeChar c (cs.flatMap writeChar ++ '"' :: r) ?_
      rw [← ht]
      rfl
  rw [string?_of_basicBody hmarks (basicBody_write s.toList r), String.ofList_toList]

/-! ## Numbers -/

theorem foldl_of_readDigits {value? : Char → Option Nat} {base acc n : Nat} {s : List Char}
    (h : Text.readDigits value? base acc s = some n) :
    s.foldl (fun n c => n * base + (value? c).getD 0) acc = n := by
  induction s generalizing acc with
  | nil => exact Option.some.inj h
  | cons c s ih =>
    rw [Text.readDigits] at h
    cases hc : value? c with
    | none => simp [hc] at h
    | some d =>
      rw [hc] at h
      rw [List.foldl_cons, hc]
      exact ih h

/-- Digits are read up to what is no digit. -/
theorem digits?_append {isDigit : Char → Bool} {s r : List Char} (hs : ∀ c ∈ s, isDigit c = true)
    (hr : ∀ c ∈ r.head?, isDigit c = false ∧ c ≠ '_') (due : Bool) (hdue : due = true → s ≠ []) :
    digits? isDigit due (s ++ r) = some (s, r) := by
  -- A digit is due at the start and after an underscore, and there are no underscores.
  induction s generalizing due with
  | nil =>
    have hdue : due = false := by simpa using hdue
    cases r with
    | nil => simp [digits?, hdue]
    | cons c r => simp [digits?, hdue, (hr c rfl).1, (hr c rfl).2]
  | cons c s ih =>
    have hc := hs c List.mem_cons_self
    have hrest := ih (fun d hd => hs d (List.mem_cons_of_mem c hd)) false (by simp)
    simp [digits?, hc, hrest]

section

variable {n : Nat} {r : List Char}

theorem isDigit_of_mem_toDigits {c : Char} (hc : c ∈ Nat.toDigits 10 n) : c.isDigit = true :=
  Nat.isDigit_of_mem_toDigits (by decide) (by decide) hc

/-- A number that is written is read as a whole part. -/
theorem wholePart?_toDigits (n : Nat) (r : List Char) :
    wholePart? (Nat.toDigits 10 n ++ '\n' :: r) = some (Nat.toDigits 10 n, '\n' :: r) := by
  -- Zero is the one number whose first digit is zero, and is read by a rule of its own.
  by_cases hn : n = 0
  · subst hn
    rfl
  · have hfirst := Text.head?_toDigits_ne_zero (by decide : 1 < 10) hn
    have hread : digits? Char.isDigit true (Nat.toDigits 10 n ++ '\n' :: r) = _ :=
      digits?_append (fun c hc => isDigit_of_mem_toDigits hc) (by simp) true fun _ => Nat.toDigits_ne_nil
    rcases hdigits : Nat.toDigits 10 n with _ | ⟨c, s⟩
    · exact absurd hdigits Nat.toDigits_ne_nil
    · rw [hdigits] at hread hfirst
      have hc : c ≠ '0' := by simpa using hfirst
      simp only [List.cons_append] at hread ⊢
      simp [wholePart?, hc, hread]

/-- Digits at the end of a line are no date: a date goes on with a dash after four digits. -/
theorem date?_digits {s : List Char} (hs : ∀ c ∈ s, c.isDigit = true) : date? (s ++ '\n' :: r) = none := by
  unfold date?
  split
  · next a b c d t heq =>
    refine if_neg fun hall => ?_
    simp only [List.all_cons, List.all_nil, Bool.and_true, Bool.and_eq_true] at hall
    -- The end of the line is not one of the first four, so that the dash is one of the digits.
    rcases s with _ | ⟨x, _ | ⟨y, _ | ⟨z, _ | ⟨w, _ | ⟨v, s⟩⟩⟩⟩⟩ <;>
      simp only [List.nil_append, List.cons_append, List.cons.injEq] at heq
    · exact absurd hall.1 (by rw [← heq.1]; decide)
    · exact absurd hall.2.1 (by rw [← heq.2.1]; decide)
    · exact absurd hall.2.2.1 (by rw [← heq.2.2.1]; decide)
    · exact absurd hall.2.2.2 (by rw [← heq.2.2.2.1]; decide)
    · exact absurd heq.2.2.2.2.1 (by decide)
    · exact absurd (hs v (by simp)) (by rw [heq.2.2.2.2.1]; decide)
  · rfl

/-- Two digits are two characters. -/
theorem eq_cons_of_twoDigits? {low high : Nat} {s t : List Char} (h : twoDigits? low high s = some (n, t)) :
    ∃ a b, s = a :: b :: t ∧ a.isDigit = true ∧ b.isDigit = true := by
  rcases s with _ | ⟨a, _ | ⟨b, s⟩⟩
  · cases h
  · cases h
  · simp only [twoDigits?] at h
    split at h
    · next hab =>
      rw [Bool.and_eq_true] at hab
      split at h
      · cases h
        exact ⟨a, b, rfl, hab⟩
      · cases h
    · cases h

/-- Nor are they a time of day: that goes on with a colon after two digits. -/
theorem time?_digits {s : List Char} (hs : ∀ c ∈ s, c.isDigit = true) : time? (s ++ '\n' :: r) = none := by
  unfold time?
  cases h : twoDigits? 0 23 (s ++ '\n' :: r) with
  | none => rfl
  | some p =>
    obtain ⟨a, b, heq, ha, hb⟩ := eq_cons_of_twoDigits? h
    have hcolon : take? ':' p.2 = none := by
      -- Two digits can be read only if two are there; behind them is the end of the line, or
      -- another digit.
      rcases s with _ | ⟨x, _ | ⟨y, _ | ⟨z, s⟩⟩⟩ <;>
        simp only [List.nil_append, List.cons_append, List.cons.injEq] at heq
      · exact absurd ha (by rw [← heq.1]; decide)
      · exact absurd hb (by rw [← heq.2.1]; decide)
      · rw [← heq.2.2]
        rfl
      · have hz : z ≠ ':' := by
          rintro rfl
          exact absurd (hs ':' (by simp)) (by decide)
        rw [← heq.2.2]
        simp [take?, hz]
    simp [hcolon]

/-- A number alone in its line is no moment. -/
theorem moment?_toDigits (n : Nat) (r : List Char) : moment? (Nat.toDigits 10 n ++ '\n' :: r) = none := by
  have hdigits : ∀ c ∈ Nat.toDigits 10 n, c.isDigit = true := fun c hc => isDigit_of_mem_toDigits hc
  rw [moment?, date?_digits hdigits]
  exact time?_digits hdigits

theorem sign_of_isDigit {c : Char} (hc : c.isDigit = true) (s : List Char) : sign (c :: s) = (false, c :: s) := by
  have hminus : c ≠ '-' := Text.ne_of_class hc (by decide)
  have hplus : c ≠ '+' := Text.ne_of_class hc (by decide)
  simp [sign, hminus, hplus]

/-- A number alone in its line is no float: neither a point nor an exponent follows. -/
theorem float?_toDigits (n : Nat) (r : List Char) : float? (Nat.toDigits 10 n ++ '\n' :: r) = none := by
  have hwhole := wholePart?_toDigits n r
  obtain ⟨c, s, hc, hcons⟩ := Text.exists_digit_cons n
  have hi : c ≠ 'i' := Text.ne_of_class hc (by decide)
  have hn : c ≠ 'n' := Text.ne_of_class hc (by decide)
  rw [hcons, List.cons_append] at hwhole ⊢
  -- A float needs a fraction or an exponent, and the line ends where one would begin.
  simp [float?, sign_of_isDigit hc, hi, hn, hwhole, fraction?, exponent?]

/-- A number below `2 ^ 63` fits the word. -/
theorem wordOf?_toDigits (hn : n < 0x8000000000000000) :
    wordOf? 10 false (Nat.toDigits 10 n) = some (n : Int) := by
  have hknows : Text.Knows Text.hexDigit? 10 := fun d hd => Text.knows_hexDigit? d (by omega)
  have hvalue := foldl_of_readDigits (Text.readDigits_toDigits (by decide) hknows n)
  have hfits : isSignedWord (n : Int) = true := by
    simp only [isSignedWord, Bool.and_eq_true, decide_eq_true_eq]
    omega
  simp [wordOf?, hvalue, hfits]

theorem integer?_of_wholePart? {s t : List Char} {i : Int}
    (hbase : ∀ d ∈ ['x', 'o', 'b'], ∀ u, s ≠ '0' :: d :: u) (hwhole : wholePart? (sign s).2 = some (t, r))
    (hword : wordOf? 10 (sign s).1 t = some i) : integer? s = some (i, r) := by
  unfold integer?
  split
  · exact absurd rfl (hbase 'x' (by simp) _)
  · exact absurd rfl (hbase 'o' (by simp) _)
  · exact absurd rfl (hbase 'b' (by simp) _)
  -- Only the two binds are opened: the bounds of a word are too large to be computed with.
  · show (wholePart? (sign s).2).bind _ = _
    rw [hwhole]
    show (wordOf? 10 (sign s).1 t).map _ = _
    rw [hword]
    rfl

/-- A number that is written is read back as an integer. -/
theorem integer?_toDigits (hn : n < 0x8000000000000000) (r : List Char) :
    integer? (Nat.toDigits 10 n ++ '\n' :: r) = some ((n : Int), '\n' :: r) := by
  have hdigits : ∀ c ∈ Nat.toDigits 10 n, c.isDigit = true := fun c hc => isDigit_of_mem_toDigits hc
  have hsign : sign (Nat.toDigits 10 n ++ '\n' :: r) = (false, Nat.toDigits 10 n ++ '\n' :: r) := by
    obtain ⟨c, s, hc, hcons⟩ := Text.exists_digit_cons n
    rw [hcons]
    exact sign_of_isDigit hc _
  refine integer?_of_wholePart? ?_ (by rw [hsign]; exact wholePart?_toDigits n r)
    (by rw [hsign]; exact wordOf?_toDigits hn)
  -- No letter for another base follows the first digit: a digit or the end of the line does.
  intro d hd u heq
  have hletter : d.isDigit = false ∧ d ≠ '\n' := by
    simp only [List.mem_cons, List.not_mem_nil, or_false] at hd
    rcases hd with rfl | rfl | rfl <;> decide
  rcases hcons : Nat.toDigits 10 n with _ | ⟨c, _ | ⟨e, s⟩⟩ <;> rw [hcons] at heq hdigits
  · simp at heq
  · simp only [List.cons_append, List.nil_append, List.cons.injEq] at heq
    exact hletter.2 heq.2.1.symm
  · simp only [List.cons_append, List.cons.injEq] at heq
    exact Text.ne_of_class (hdigits e (by simp)) hletter.1 heq.2.1

theorem numeric?_toDigits (hn : n < 0x8000000000000000) (r : List Char) :
    numeric? (Nat.toDigits 10 n ++ '\n' :: r) = some (.integer n, '\n' :: r) := by
  rw [numeric?, moment?_toDigits, float?_toDigits, integer?_toDigits hn]
  rfl

end

/-! ## Values -/

/-- A scalar that is written in a line of its own is read back. -/
theorem value?_write {v : Scalar} (hv : v.Fits) (nesting : Nat) (r : List Char) :
    value? nesting (v.write ++ '\n' :: r) = some (v.value, '\n' :: r) := by
  cases v with
  | text s =>
    have hread : string? ('"' :: (s.toList.flatMap writeChar ++ '"' :: '\n' :: r)) = some (s, '\n' :: r) :=
      string?_write s (by simp)
    rw [value?.eq_def]
    simp [Scalar.write, hread, Scalar.value]
  | natural n =>
    have hread := numeric?_toDigits hv r
    obtain ⟨c, s, hc, hcons⟩ := Text.exists_digit_cons n
    rw [Scalar.write, value?.eq_def]
    rw [hcons, List.cons_append] at hread ⊢
    -- A digit is the first character of no other kind of value.
    dsimp only
    split
    · next heq => exact absurd (List.cons.inj heq).1 (Text.ne_of_class hc (by decide))
    · next heq => exact absurd (List.cons.inj heq).1 (Text.ne_of_class hc (by decide))
    · next heq => exact absurd (List.cons.inj heq).1 (Text.ne_of_class hc (by decide))
    · next heq => exact absurd (List.cons.inj heq).1 (Text.ne_of_class hc (by decide))
    · next heq =>
      obtain ⟨rfl, rfl⟩ := List.cons.inj heq
      have hmarks : c ≠ '"' ∧ c ≠ '\'' := ⟨Text.ne_of_class hc (by decide), Text.ne_of_class hc (by decide)⟩
      simp [hmarks, hread, Scalar.value]
    · next heq => cases heq

theorem isBlank_of_class {isClass : Char → Bool} {c : Char} (hc : isClass c = true) (hspace : isClass ' ' = false)
    (htab : isClass '\t' = false) : isBlank c = false := by
  simp [isBlank, Text.ne_of_class hc hspace, Text.ne_of_class hc htab]

theorem Scalar.skipBlanks_write (v : Scalar) (r : List Char) : skipBlanks (' ' :: (v.write ++ r)) = v.write ++ r := by
  have hfirst : ∃ c s, isBlank c = false ∧ v.write = c :: s := by
    cases v with
    | text s => exact ⟨'"', _, by decide, rfl⟩
    | natural n =>
      obtain ⟨c, s, hc, hcons⟩ := Text.exists_digit_cons n
      exact ⟨c, s, isBlank_of_class hc (by decide) (by decide), hcons⟩
  obtain ⟨c, s, hc, hcons⟩ := hfirst
  have hspace : isBlank ' ' = true := by decide
  rw [hcons]
  simp [skipBlanks, hspace, hc]

end Toml
end Bridgework
