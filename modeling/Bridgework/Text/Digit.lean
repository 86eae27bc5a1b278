/-!
# Digits and numbers in texts

- `isDecimal` : the characters of the Unicode category `Nd`
- `digit?`, `hexDigit?` : the value of an ASCII digit
- `natOfDecimal?`, `natOfHex?` : a number written with ASCII digits alone
- `nat64?`, `int32?` : bounded numbers, with an optional sign
-/

namespace Bridgework
namespace Text

/-! ## Digit characters -/

/-- The zero of each run of ten decimal digits. -/
def decimalZeros : List Nat :=
  [0x30, 0x660, 0x6f0, 0x7c0, 0x966, 0x9e6, 0xa66, 0xae6, 0xb66, 0xbe6, 0xc66, 0xce6, 0xd66, 0xde6,
    0xe50, 0xed0, 0xf20, 0x1040, 0x1090, 0x17e0, 0x1810, 0x1946, 0x19d0, 0x1a80, 0x1a90, 0x1b50,
    0x1bb0, 0x1c40, 0x1c50, 0xa620, 0xa8d0, 0xa900, 0xa9d0, 0xa9f0, 0xaa50, 0xabf0, 0xff10, 0x104a0,
    0x10d30, 0x10d40, 0x11066, 0x110f0, 0x11136, 0x111d0, 0x112f0, 0x11450, 0x114d0, 0x11650,
    0x116c0, 0x116d0, 0x116da, 0x11730, 0x118e0, 0x11950, 0x11bf0, 0x11c50, 0x11d50, 0x11da0,
    0x11f50, 0x16130, 0x16a60, 0x16ac0, 0x16b50, 0x16d70, 0x1ccf0, 0x1d7ce, 0x1d7d8, 0x1d7e2,
    0x1d7ec, 0x1d7f6, 0x1e140, 0x1e2f0, 0x1e4f0, 0x1e5f1, 0x1e950, 0x1fbf0]

/-- The decimal digits of all scripts: the Unicode category `Nd`. -/
def isDecimal (c : Char) : Bool :=
  decimalZeros.any fun z => z ≤ c.toNat && c.toNat < z + 10

def digit? (c : Char) : Option Nat :=
  if '0' ≤ c ∧ c ≤ '9' then some (c.toNat - '0'.toNat) else none

/-- The value of an ASCII hexadecimal digit of either case. -/
def hexDigit? (c : Char) : Option Nat :=
  if '0' ≤ c ∧ c ≤ '9' then some (c.toNat - '0'.toNat)
  else if 'a' ≤ c ∧ c ≤ 'f' then some (c.toNat - 'a'.toNat + 10)
  else if 'A' ≤ c ∧ c ≤ 'F' then some (c.toNat - 'A'.toNat + 10)
  else none

/-! ## Numbers -/

/-- Reads digits on from the value `acc` of those already read. -/
def readDigits (value? : Char → Option Nat) (base : Nat) (acc : Nat) : List Char → Option Nat
  | [] => some acc
  | c :: s =>
    match value? c with
    | some d => readDigits value? base (acc * base + d) s
    | none => none

def natOfDecimal? : List Char → Option Nat
  | [] => none
  | s => readDigits digit? 10 0 s

def natOfHex? : List Char → Option Nat
  | [] => none
  | s => readDigits hexDigit? 16 0 s

/-- A number below `2 ^ 64`, in decimal digits after an optional plus sign. -/
def nat64? (s : List Char) : Option Nat :=
  let digits := match s with
    | '+' :: r => r
    | r => r
  (natOfDecimal? digits).filter (· < UInt64.size)

/-- A number of 32 bits in two's complement, in decimal digits after an optional sign. -/
def int32? (s : List Char) : Option Int :=
  match s with
  | '-' :: r => ((natOfDecimal? r).filter (· ≤ 0x80000000)).map fun n => -(n : Int)
  | '+' :: r => ((natOfDecimal? r).filter (· < 0x80000000)).map fun n => (n : Int)
  | r => ((natOfDecimal? r).filter (· < 0x80000000)).map fun n => (n : Int)

/-- A number in lower-case hexadecimal digits, without a mark of the base. -/
def hexText (n : Nat) : String := String.ofList (Nat.toDigits 16 n)

def hexPadded (width n : Nat) : String :=
  let digits := Nat.toDigits 16 n
  String.ofList (List.replicate (width - digits.length) '0' ++ digits)

end Text
end Bridgework
