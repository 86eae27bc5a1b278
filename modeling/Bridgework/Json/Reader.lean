import Bridgework.Json.Basic

/-!
# Reading JSON documents

The grammar of documents, without any tolerance: no comments, no comma at the end of a list, no
control characters in strings, no zeros in front of a number.

- `Json.literal?`, `Json.numeral?` : a string after its opening quote, a number
- `Json.value?` : a document at the start of a text, with what follows it
- `Json.parse?` : a text that is one document
-/

namespace Bridgework
namespace Json

/-! ## Strings -/

/-- A piece of a string: a character, or a 16-bit unit named by its four digits. -/
inductive Piece where
  | char (c : Char)
  | escaped (c : Char)
  | unit (n : Nat)
  deriving DecidableEq, Repr

def simpleEscape? : Char → Option Char
  | '"' => some '"'
  | '\\' => some '\\'
  | '/' => some '/'
  | 'b' => some (Char.ofNat 8)
  | 'f' => some (Char.ofNat 12)
  | 'n' => some '\n'
  | 'r' => some '\r'
  | 't' => some '\t'
  | _ => none

def unit? (a b c d : Char) : Option Nat := Text.natOfHex? [a, b, c, d]

/-- The pieces up to the closing quote, and what follows it. -/
def pieces? : List Char → Option (List Piece × List Char)
  | [] => none
  | '"' :: r => some ([], r)
  | '\\' :: 'u' :: a :: b :: c :: d :: r =>
    match unit? a b c d, pieces? r with
    | some n, some (ps, r) => some (.unit n :: ps, r)
    | _, _ => none
  | '\\' :: e :: r =>
    match simpleEscape? e, pieces? r with
    | some c, some (ps, r) => some (.escaped c :: ps, r)
    | _, _ => none
  | c :: r =>
    if mustEscape c then none
    else
      match pieces? r with
      | some (ps, r) => some (.char c :: ps, r)
      | none => none

/-- The first half of a surrogate pair. -/
def isLeading (n : Nat) : Bool := 0xd800 ≤ n && n < 0xdc00

/-- The second half of a surrogate pair. -/
def isTrailing (n : Nat) : Bool := 0xdc00 ≤ n && n < 0xe000

def pairChar (hi lo : Nat) : Char := Char.ofNat (0x10000 + (hi - 0xd800) * 0x400 + (lo - 0xdc00))

/-- The characters of the pieces; `none` if a surrogate stands alone. -/
def decode? : List Piece → Option (List Char)
  | [] => some []
  | .char c :: ps => (decode? ps).map (c :: ·)
  | .escaped c :: ps => (decode? ps).map (c :: ·)
  | .unit hi :: .unit lo :: ps =>
    if isLeading hi then
      if isTrailing lo then (decode? ps).map (pairChar hi lo :: ·) else none
    else if isTrailing hi then none
    else (decode? (.unit lo :: ps)).map (Char.ofNat hi :: ·)
  | .unit n :: ps =>
    if isLeading n || isTrailing n then none else (decode? ps).map (Char.ofNat n :: ·)

def Piece.isPlain : Piece → Bool
  | .char _ => true
  | _ => false

/-- A string after its opening quote, and what follows its closing quote. -/
def literal? (s : List Char) : Option (Literal × List Char) :=
  (pieces? s).map fun (ps, r) =>
    (⟨(decode? ps).map String.ofList, ps.all Piece.isPlain⟩, r)

/-! ## Numbers -/

def digits (s : List Char) : List Char × List Char := s.span Char.isDigit

/-- The exponent part at the start of a text, if there is a mark of one; `none` if no digit
follows the mark. -/
def exponent? : List Char → Option (Option (Bool × List Char) × List Char)
  | c :: r =>
    if c = 'e' ∨ c = 'E' then
      let (minus, r) := match r with
        | '+' :: r => (false, r)
        | '-' :: r => (true, r)
        | r => (false, r)
      match digits r with
      | ([], _) => none
      | (ds, r) => some (some (minus, ds), r)
    else some (none, c :: r)
  | [] => some (none, [])

/-- The digits after a point, if there is a point; `none` if no digit follows it. -/
def fraction? : List Char → Option (List Char × List Char)
  | '.' :: r =>
    match digits r with
    | ([], _) => none
    | (ds, r) => some (ds, r)
  | r => some ([], r)

/-- The digits of the whole part: a zero alone, or digits of which the first is not zero. -/
def whole? (s : List Char) : Option (List Char × List Char) :=
  match digits s with
  | ([], _) => none
  | (['0'], r) => some (['0'], r)
  | ('0' :: _, _) => none
  | (ds, r) => some (ds, r)

def numeral? (s : List Char) : Option (Numeral × List Char) := do
  let (negative, s) := match s with
    | '-' :: r => (true, r)
    | r => (false, r)
  let (whole, s) ← whole? s
  let (fraction, s) ← fraction? s
  let (exponent, s) ← exponent? s
  return (⟨negative, whole, fraction, exponent⟩, s)

/-! ## Documents -/

def isSpace (c : Char) : Bool := c == ' ' || c == '\n' || c == '\t' || c == '\r'

def skip (s : List Char) : List Char := s.dropWhile isSpace

mutual

/-- A document at the start of a text, and what follows it. Each call takes one unit of fuel. -/
def value? : Nat → List Char → Option (Json × List Char)
  | 0, _ => none
  | fuel + 1, s =>
    match skip s with
    | 'n' :: 'u' :: 'l' :: 'l' :: r => some (.null, r)
    | 't' :: 'r' :: 'u' :: 'e' :: r => some (.bool true, r)
    | 'f' :: 'a' :: 'l' :: 's' :: 'e' :: r => some (.bool false, r)
    | '"' :: r => (literal? r).map fun (l, r) => (.str l, r)
    | '[' :: r =>
      match skip r with
      | ']' :: r => some (.arr [], r)
      | r => (items? fuel r).map fun (js, r) => (.arr js, r)
    | '\x7b' :: r =>
      match skip r with
      | '\x7d' :: r => some (.obj [], r)
      | r => (members? fuel r).map fun (ms, r) => (.obj ms, r)
    | r => (numeral? r).map fun (n, r) => (.num n, r)

def items? : Nat → List Char → Option (List Json × List Char)
  | 0, _ => none
  | fuel + 1, s =>
    match value? fuel s with
    | none => none
    | some (j, r) =>
      match skip r with
      | ',' :: r => (items? fuel r).map fun (js, r) => (j :: js, r)
      | ']' :: r => some ([j], r)
      | _ => none

def members? : Nat → List Char → Option (List (Literal × Json) × List Char)
  | 0, _ => none
  | fuel + 1, s =>
    match skip s with
    | '"' :: r =>
      match literal? r with
      | none => none
      | some (k, r) =>
        match skip r with
        | ':' :: r =>
          match value? fuel r with
          | none => none
          | some (j, r) =>
            match skip r with
            | ',' :: r => (members? fuel r).map fun (ms, r) => ((k, j) :: ms, r)
            | '\x7d' :: r => some ([(k, j)], r)
            | _ => none
        | _ => none
    | _ => none

end

def read? (s : String) : Option (Json × List Char) :=
  let cs := s.toList
  value? (cs.length + 1) cs

def isDone (r : List Char) : Bool := (skip r).isEmpty

def parse? (s : String) : Option Json :=
  match read? s with
  | some (j, r) => if isDone r then some j else none
  | none => none

end Json
end Bridgework
