import Bridgework.Text.Digit
import Bridgework.Binary64.Basic

/-!
# JSON documents

A document as it is written: members keep their order and repetitions, numbers keep their digits, and
strings remember whether they can be read. Whether such a thing is acceptable depends on what reads
it, so it is decided when a document is decoded, not when it is parsed.

- `Json.Numeral` : a number as written, and the three kinds of value it can have
- `Json.Literal` : a string as written
- `Json` : documents
- `Json.settled?` : the document with every part read and the last of repeated members kept
-/

namespace Bridgework
namespace Json

/-! ## Numbers -/

/-- A number as it is written. -/
structure Numeral where
  /-- A minus sign stands before it. -/
  negative : Bool
  /-- The digits before the point. -/
  whole : List Char
  /-- The digits after the point; none if there is no point. -/
  fraction : List Char
  /-- The sign and the digits of the exponent: `true` for a minus sign. -/
  exponent : Option (Bool × List Char)
  deriving DecidableEq, Repr

inductive Number where
  /-- A whole number from `0` to `2 ^ 64 - 1`. -/
  | natural (n : Nat)
  /-- A whole number from `-2 ^ 63` to `-1`, given by its absolute value. -/
  | negative (n : Nat)
  /-- Everything else, as a double. -/
  | double (x : Binary64)
  deriving DecidableEq, Repr

namespace Numeral

def ofNat (n : Nat) : Numeral := ⟨false, Nat.toDigits 10 n, [], none⟩

def ofInt (n : Int) : Numeral := ⟨n < 0, Nat.toDigits 10 n.natAbs, [], none⟩

/-- Takes digits into a significand as long as it stays below `2 ^ 64`. Answers the significand and
the digits left over. -/
def takeDigits (acc : Nat) : List Char → Nat × List Char
  | [] => (acc, [])
  | c :: s =>
    let next := acc * 10 + (Text.digit? c).getD 0
    if next < UInt64.size then takeDigits next s else (acc, c :: s)

/-- The significand of at most 64 bits, and the power of ten of its last digit before the exponent
part is applied. Digits that find no room are dropped. -/
def significand (n : Numeral) : Nat × Int :=
  let (acc, left) := takeDigits 0 n.whole
  if left.isEmpty then
    let (acc, unread) := takeDigits acc n.fraction
    (acc, -((n.fraction.length - unread.length : Nat) : Int))
  else
    let (acc, unread) := takeDigits acc n.fraction
    (acc, (left.length : Int) - ((n.fraction.length - unread.length : Nat) : Int))

/-- The exponent part; `none` if it has more than 31 bits. -/
def exponentValue? (n : Numeral) : Option Int :=
  match n.exponent with
  | none => some 0
  | some (minus, digits) =>
    match Text.natOfDecimal? digits with
    | some k => if k < 0x80000000 then some (if minus then -(k : Int) else k) else none
    | none => none

/-- The double of a number: its significand times a power of ten, rounded at each of the two steps.
`none` if it is too large. -/
def double? (n : Numeral) : Option Binary64 :=
  let (acc, k) := n.significand
  match n.exponentValue? with
  | some e =>
    (Binary64.timesPowerOfTen? (Binary64.ofNat acc) (k + e)).map fun x =>
      if n.negative then x.neg else x
  | none =>
    match n.exponent with
    | some (false, _) => if acc = 0 then some (Binary64.zero n.negative) else none
    | _ => some (Binary64.zero n.negative)

/-- The value of a number without point and exponent; too large ones and a negative zero are
doubles. -/
def number? (n : Numeral) : Option Number :=
  if n.fraction.isEmpty && n.exponent.isNone then
    match Text.natOfDecimal? n.whole with
    | none => none
    | some k =>
      if n.negative then
        if 0 < k && k ≤ 0x8000000000000000 then some (.negative k) else n.double?.map .double
      else if k < UInt64.size then some (.natural k)
      else n.double?.map .double
  else n.double?.map .double

end Numeral

/-! ## Strings -/

structure Literal where
  /-- The text; `none` if an escape names one half of a surrogate pair without the other. -/
  value : Option String
  /-- Whether it is written without escapes. -/
  plain : Bool
  deriving DecidableEq, Repr

/-- The characters that a string holds only as escapes. -/
def mustEscape (c : Char) : Bool := c == '"' || c == '\\' || c.toNat < 0x20

def Literal.ofString (s : String) : Literal := ⟨some s, !s.toList.any mustEscape⟩

end Json

/-! ## Documents -/

inductive Json where
  | null
  | bool (b : Bool)
  | num (n : Json.Numeral)
  | str (s : Json.Literal)
  | arr (items : List Json)
  | obj (members : List (Json.Literal × Json))
  deriving Inhabited, Repr

namespace Json

def text (s : String) : Json := .str (.ofString s)

def nat (n : Nat) : Json := .num (.ofNat n)

def int (n : Int) : Json := .num (.ofInt n)

def object (members : List (String × Json)) : Json :=
  .obj (members.map fun m => (.ofString m.1, m.2))

def orNull {α : Type} (f : α → Json) : Option α → Json
  | some a => f a
  | none => .null

def list {α : Type} (f : α → Json) (l : List α) : Json := .arr (l.map f)

/-! ## Nesting -/

mutual

/-- How many arrays and objects are open at the deepest place. -/
def depth : Json → Nat
  | .arr items => itemsDepth items + 1
  | .obj members => membersDepth members + 1
  | _ => 0

def itemsDepth : List Json → Nat
  | [] => 0
  | j :: js => max (depth j) (itemsDepth js)

def membersDepth : List (Literal × Json) → Nat
  | [] => 0
  | (_, j) :: ms => max (depth j) (membersDepth ms)

end

/-- The number of arrays and objects that may be open at once. -/
def maxDepth : Nat := 127

/-! ## Settled documents -/

/-- The members without those that a later one of the same name replaces. -/
def keepLast : List (String × Json) → List (String × Json)
  | [] => []
  | m :: ms => if ms.any (fun n => n.1 == m.1) then keepLast ms else m :: keepLast ms

mutual

/-- Reads every string and number; of repeated members the last one stays. `none` if a string or a
number cannot be read. -/
def settle? : Json → Option Json
  | .null => some .null
  | .bool b => some (.bool b)
  | .num n => n.number?.map fun _ => .num n
  | .str s => s.value.map fun t => .text t
  | .arr items => (settleItems? items).map .arr
  | .obj members => (settleMembers? members).map fun ms => .object (keepLast ms)

def settleItems? : List Json → Option (List Json)
  | [] => some []
  | j :: js =>
    match settle? j, settleItems? js with
    | some j, some js => some (j :: js)
    | _, _ => none

def settleMembers? : List (Literal × Json) → Option (List (String × Json))
  | [] => some []
  | (k, j) :: ms =>
    match k.value, settle? j, settleMembers? ms with
    | some k, some j, some ms => some ((k, j) :: ms)
    | _, _, _ => none

end

/-- The document with every part read, if each part can be read and it is not nested too deeply. -/
def settled? (j : Json) : Option Json := if j.depth ≤ maxDepth then j.settle? else none

end Json
end Bridgework
