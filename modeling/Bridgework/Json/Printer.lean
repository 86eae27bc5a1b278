import Bridgework.Json.Basic
import Bridgework.Binary64.Shortest

/-!
# Writing JSON documents

- `Json.render` : a document without any space, members in their order
- `Json.double` : a double with its shortest decimal
-/

namespace Bridgework
namespace Json

/-! ## Strings and numbers -/

def renderChar (c : Char) : List Char :=
  if c = '"' then ['\\', '"']
  else if c = '\\' then ['\\', '\\']
  else if c = '\n' then ['\\', 'n']
  else if c = '\r' then ['\\', 'r']
  else if c = '\t' then ['\\', 't']
  else if c.toNat = 8 then ['\\', 'b']
  else if c.toNat = 12 then ['\\', 'f']
  else if c.toNat < 0x20 then '\\' :: 'u' :: (Text.hexPadded 4 c.toNat).toList
  else [c]

def renderString (s : List Char) : List Char := '"' :: s.flatMap renderChar ++ ['"']

/-- A string as written; one that cannot be read is written empty. -/
def Literal.render (l : Literal) : List Char := renderString ((l.value.getD "").toList)

def Numeral.render (n : Numeral) : List Char :=
  (if n.negative then ['-'] else []) ++ n.whole ++
    (if n.fraction.isEmpty then [] else '.' :: n.fraction) ++
    match n.exponent with
    | none => []
    | some (minus, ds) => 'e' :: (if minus then ['-'] else []) ++ ds

/-- The parts of the number `c * 10 ^ k`: positional from `10 ^ -5` to below `10 ^ 16`, otherwise with an
exponent, and always with a point or an exponent. -/
def Numeral.ofDecimal (negative : Bool) (c : Nat) (k : Int) : Numeral :=
  let ds := Nat.toDigits 10 c
  let point := (ds.length : Int) + k
  if 0 ≤ k && point ≤ 16 then ⟨negative, ds ++ List.replicate k.toNat '0', ['0'], none⟩
  else if 0 < point && point ≤ 16 then
    ⟨negative, ds.take point.toNat, ds.drop point.toNat, none⟩
  else if -5 < point && point ≤ 0 then
    ⟨negative, ['0'], List.replicate (-point).toNat '0' ++ ds, none⟩
  else
    let power := point - 1
    ⟨negative, ds.take 1, ds.drop 1, some (power < 0, Nat.toDigits 10 power.natAbs)⟩

def Numeral.ofBinary64 (x : Binary64) : Numeral :=
  if x.isZero then ⟨x.negative, ['0'], ['0'], none⟩
  else
    let (c, k) := x.shortest
    .ofDecimal x.negative c k

def double (x : Binary64) : Json := .num (.ofBinary64 x)

/-! ## Documents -/

mutual

/-- A document without space. -/
def renderChars : Json → List Char
  | .null => ['n', 'u', 'l', 'l']
  | .bool true => ['t', 'r', 'u', 'e']
  | .bool false => ['f', 'a', 'l', 's', 'e']
  | .num n => n.render
  | .str s => s.render
  | .arr items => '[' :: renderItems items ++ [']']
  | .obj members => '\x7b' :: renderMembers members ++ ['\x7d']

def renderItems : List Json → List Char
  | [] => []
  | [j] => renderChars j
  | j :: js => renderChars j ++ ',' :: renderItems js

def renderMembers : List (Literal × Json) → List Char
  | [] => []
  | [(k, j)] => k.render ++ ':' :: renderChars j
  | (k, j) :: ms => k.render ++ ':' :: renderChars j ++ ',' :: renderMembers ms

end

def render (j : Json) : String := String.ofList (renderChars j)

end Json
end Bridgework
