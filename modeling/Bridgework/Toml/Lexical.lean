import Bridgework.Binary64.Basic
import Bridgework.Text.Digit
import Bridgework.Toml.Basic

/-!
# Lexical forms of TOML

Each reader takes what it reads off the front of a text and gives the rest, or gives nothing.

- blanks, comments and ends of lines
- the four forms of strings
- integers, floating-point numbers and points in time
- keys
-/

namespace Bridgework
namespace Toml

/-! ## Blanks and lines -/

def isBlank (c : Char) : Bool := c == ' ' || c == '\t'

def skipBlanks (s : List Char) : List Char := s.dropWhile isBlank

/-- A character that may stand in a comment: all but control characters other than a tab. -/
def isVisible (c : Char) : Bool :=
  c == '\t' || (0x20 ≤ c.toNat && c.toNat ≤ 0x7E) || 0x80 ≤ c.toNat

def newline? : List Char → Option (List Char)
  | '\n' :: s => some s
  | '\r' :: '\n' :: s => some s
  | _ => none

def skipComment : List Char → List Char
  | '#' :: s => s.dropWhile isVisible
  | s => s

/-- Takes the rest of a line: blanks, a comment, and the end of the line or of the text. -/
def lineEnd? (s : List Char) : Option (List Char) :=
  match skipComment (skipBlanks s) with
  | [] => some []
  | s => newline? s

def skipSpace : List Char → Bool → List Char
  | [], _ => []
  | '\n' :: s, _ => skipSpace s false
  | '\r' :: '\n' :: s, _ => skipSpace s false
  | c :: s, true => if isVisible c then skipSpace s true else c :: s
  | '#' :: s, false => skipSpace s true
  | c :: s, false => if isBlank c then skipSpace s false else c :: s

/-! ## Strings -/

def charOfHex? (digits : List Char) : Option Char :=
  (Text.natOfHex? digits).bind fun n => if n.isValidChar then some (Char.ofNat n) else none

def escape? : Char → Option Char
  | 'b' => some '\x08'
  | 'f' => some '\x0c'
  | 'n' => some '\n'
  | 'r' => some '\r'
  | 't' => some '\t'
  | '\\' => some '\\'
  | '"' => some '"'
  | _ => none

def basicBody : List Char → Option (List Char × List Char)
  | [] => none
  | '"' :: s => some ([], s)
  | '\\' :: 'u' :: a :: b :: c :: d :: s =>
    match charOfHex? [a, b, c, d], basicBody s with
    | some x, some (t, rest) => some (x :: t, rest)
    | _, _ => none
  | '\\' :: 'U' :: a :: b :: c :: d :: e :: f :: g :: h :: s =>
    match charOfHex? [a, b, c, d, e, f, g, h], basicBody s with
    | some x, some (t, rest) => some (x :: t, rest)
    | _, _ => none
  | '\\' :: x :: s =>
    match escape? x, basicBody s with
    | some x, some (t, rest) => some (x :: t, rest)
    | _, _ => none
  -- A backslash in front of anything else is an error, and so is a control character.
  | c :: s =>
    if c == '\\' || !isVisible c then none
    else (basicBody s).map fun (t, rest) => (c :: t, rest)

def literalBody : List Char → Option (List Char × List Char)
  | [] => none
  | '\'' :: s => some ([], s)
  | c :: s => if isVisible c then (literalBody s).map fun (t, rest) => (c :: t, rest) else none

/-- Whether blanks and then the end of a line come next. -/
def breaksLine (s : List Char) : Bool := (newline? (skipBlanks s)).isSome

/-- The inside of a string in three quotation marks. One or two further marks before the closing ones
belong to it. The flag says that blanks and ends of lines are left out, as they are after a backslash
at the end of a line. -/
def longBasicBody : Bool → List Char → Option (List Char × List Char)
  | _, [] => none
  -- Up to two quotation marks may stand before the three that end the string.
  | _, '"' :: '"' :: '"' :: '"' :: '"' :: s => some (['"', '"'], s)
  | _, '"' :: '"' :: '"' :: '"' :: s => some (['"'], s)
  | _, '"' :: '"' :: '"' :: s => some ([], s)
  | trim, '\n' :: s =>
    if trim then longBasicBody true s
    else (longBasicBody false s).map fun (t, rest) => ('\n' :: t, rest)
  | trim, '\r' :: '\n' :: s =>
    if trim then longBasicBody true s
    else (longBasicBody false s).map fun (t, rest) => ('\n' :: t, rest)
  | _, '\\' :: 'u' :: a :: b :: c :: d :: s =>
    match charOfHex? [a, b, c, d], longBasicBody false s with
    | some x, some (t, rest) => some (x :: t, rest)
    | _, _ => none
  | _, '\\' :: 'U' :: a :: b :: c :: d :: e :: f :: g :: h :: s =>
    match charOfHex? [a, b, c, d, e, f, g, h], longBasicBody false s with
    | some x, some (t, rest) => some (x :: t, rest)
    | _, _ => none
  -- A backslash at the end of a line swallows the blanks that follow.
  | _, '\\' :: '\n' :: s => longBasicBody true s
  | _, '\\' :: x :: s =>
    if breaksLine (x :: s) then longBasicBody true s
    else
      match escape? x, longBasicBody false s with
      | some x, some (t, rest) => some (x :: t, rest)
      | _, _ => none
  | trim, c :: s =>
    if trim && isBlank c then longBasicBody true s
    else if c == '\\' || !isVisible c then none
    else (longBasicBody false s).map fun (t, rest) => (c :: t, rest)

def longLiteralBody : List Char → Option (List Char × List Char)
  | [] => none
  | '\'' :: '\'' :: '\'' :: '\'' :: '\'' :: s => some (['\'', '\''], s)
  | '\'' :: '\'' :: '\'' :: '\'' :: s => some (['\''], s)
  | '\'' :: '\'' :: '\'' :: s => some ([], s)
  | '\n' :: s => (longLiteralBody s).map fun (t, rest) => ('\n' :: t, rest)
  | '\r' :: '\n' :: s => (longLiteralBody s).map fun (t, rest) => ('\n' :: t, rest)
  | c :: s => if isVisible c then (longLiteralBody s).map fun (t, rest) => (c :: t, rest) else none

/-- Leaves out the end of a line that directly follows the opening marks. -/
def skipNewline (s : List Char) : List Char := (newline? s).getD s

def string? (s : List Char) : Option (String × List Char) :=
  let read := match s with
    | '"' :: '"' :: '"' :: s => longBasicBody false (skipNewline s)
    | '"' :: s => basicBody s
    | '\'' :: '\'' :: '\'' :: s => longLiteralBody (skipNewline s)
    | '\'' :: s => literalBody s
    | _ => none
  read.map fun (t, rest) => (String.ofList t, rest)

/-! ## Numbers -/

/-- Digits, with single underscores between them. The flag says that a digit has to come next. -/
def digits? (isDigit : Char → Bool) : Bool → List Char → Option (List Char × List Char)
  | due, [] => if due then none else some ([], [])
  | due, c :: s =>
    if isDigit c then (digits? isDigit false s).map fun (t, rest) => (c :: t, rest)
    else if due then none
    else if c == '_' then digits? isDigit true s
    else some ([], c :: s)

/-- The digits of a decimal number without leading zeros. -/
def wholePart? : List Char → Option (List Char × List Char)
  | '0' :: s => some (['0'], s)
  | s => digits? Char.isDigit true s

def sign : List Char → Bool × List Char
  | '-' :: s => (true, s)
  | '+' :: s => (false, s)
  | s => (false, s)

def isSignedWord (n : Int) : Bool := -0x8000000000000000 ≤ n && n < 0x8000000000000000

/-- The number of digits in a base, if it fits. -/
def wordOf? (base : Nat) (negative : Bool) (digits : List Char) : Option Int :=
  let n := digits.foldl (fun n c => n * base + (Text.hexDigit? c).getD 0) 0
  let i : Int := if negative then -n else n
  if isSignedWord i then some i else none

def integer? (s : List Char) : Option (Int × List Char) :=
  let read (base : Nat) (isDigit : Char → Bool) (s : List Char) :=
    (digits? isDigit true s).bind fun (t, rest) => (wordOf? base false t).map (·, rest)
  match s with
  | '0' :: 'x' :: s => read 16 (fun c => (Text.hexDigit? c).isSome) s
  | '0' :: 'o' :: s => read 8 (fun c => '0' ≤ c && c ≤ '7') s
  | '0' :: 'b' :: s => read 2 (fun c => c == '0' || c == '1') s
  | s =>
    let (negative, s) := sign s
    (wholePart? s).bind fun (t, rest) => (wordOf? 10 negative t).map (·, rest)

def fraction? : List Char → Option (List Char × List Char)
  | '.' :: s => digits? Char.isDigit true s
  | _ => none

def exponent? : List Char → Option (Int × List Char)
  | c :: s =>
    if c == 'e' || c == 'E' then
      let (negative, s) := sign s
      (digits? Char.isDigit true s).map fun (t, rest) =>
        let n : Nat := t.foldl (fun n c => n * 10 + (Text.hexDigit? c).getD 0) 0
        (if negative then -(n : Int) else n, rest)
    else none
  | [] => none

/-- Whether `n · 10^k` is beyond every double. -/
def overflows (n : Nat) (k : Int) : Bool :=
  let magnitude : Int := (Nat.toDigits 10 n).length + k
  if n = 0 || magnitude < 300 then false
  else if 320 < magnitude then true
  else (if k < 0 then Binary64.ofRatio? false n (Nat.pow 10 k.natAbs)
    else Binary64.ofRatio? false (n * Nat.pow 10 k.natAbs) 1).isNone

/-- A floating-point number. A positive one may not be too great. -/
def float? (s : List Char) : Option (List Char) :=
  let (negative, t) := sign s
  match t with
  | 'i' :: 'n' :: 'f' :: rest => some rest
  | 'n' :: 'a' :: 'n' :: rest => some rest
  | t =>
    match wholePart? t with
    | none => none
    | some (whole, rest) =>
      -- There is a fraction, an exponent, or both.
      let (part, k, rest) :=
        match fraction? rest with
        | some (part, rest) =>
          match exponent? rest with
          | some (k, rest) => (part, k, some rest)
          | none => (part, 0, some rest)
        | none =>
          match exponent? rest with
          | some (k, rest) => ([], k, some rest)
          | none => ([], 0, none)
      let n := (whole ++ part).foldl (fun n c => n * 10 + (Text.hexDigit? c).getD 0) 0
      -- Overflow is refused for positive numbers only.
      if !negative && overflows n (k - part.length) then none else rest

/-! ## Points in time -/

def twoDigits? (low high : Nat) : List Char → Option (Nat × List Char)
  | a :: b :: s =>
    if a.isDigit && b.isDigit then
      let n := (a.toNat - 48) * 10 + (b.toNat - 48)
      if low ≤ n && n ≤ high then some (n, s) else none
    else none
  | _ => none

def take? (c : Char) : List Char → Option (List Char)
  | x :: s => if x == c then some s else none
  | [] => none

def daysIn (year month : Nat) : Nat :=
  if month = 2 then
    if year % 4 = 0 && (year % 100 != 0 || year % 400 = 0) then 29 else 28
  else if month ∈ [4, 6, 9, 11] then 30
  else 31

def date? : List Char → Option (List Char)
  | a :: b :: c :: d :: '-' :: s =>
    if [a, b, c, d].all Char.isDigit then do
      let year := [a, b, c, d].foldl (fun n c => n * 10 + (c.toNat - 48)) 0
      let (month, s) ← twoDigits? 1 12 s
      let s ← take? '-' s
      let (_, s) ← twoDigits? 1 (daysIn year month) s
      return s
    else none
  | _ => none

def time? (s : List Char) : Option (List Char) := do
  let (_, s) ← twoDigits? 0 23 s
  let s ← take? ':' s
  let (_, s) ← twoDigits? 0 59 s
  let s ← take? ':' s
  let (_, s) ← twoDigits? 0 60 s
  match s with
  | '.' :: c :: rest => return if c.isDigit then rest.dropWhile Char.isDigit else s
  | _ => return s

/-- A difference to universal time. -/
def offset? : List Char → Option (List Char)
  | c :: s =>
    if c == 'Z' || c == 'z' then some s
    else if c == '+' || c == '-' then do
      let (_, s) ← twoDigits? 0 23 s
      let s ← take? ':' s
      let (_, s) ← twoDigits? 0 59 s
      return s
    else none
  | [] => none

/-- A date, a time of day, or both, then perhaps with a difference to universal time. -/
def moment? (s : List Char) : Option (List Char) :=
  match date? s with
  | some rest =>
    let clock := match rest with
      | c :: s => if c == 'T' || c == 't' || c == ' ' then time? s else none
      | [] => none
    match clock with
    | some s => some ((offset? s).getD s)
    | none => some rest
  | none => time? s

/-! ## Keys -/

def isBare (c : Char) : Bool := c.isAlphanum || c == '-' || c == '_'

def simpleKey? : List Char → Option (String × List Char)
  | '"' :: s => (basicBody s).map fun (t, rest) => (String.ofList t, rest)
  | '\'' :: s => (literalBody s).map fun (t, rest) => (String.ofList t, rest)
  | s =>
    match s.span isBare with
    | ([], _) => none
    | (t, rest) => some (String.ofList t, rest)

/-- A key may have fewer parts than this. -/
def maxKeyParts : Nat := 80

/-- The parts of a key between points, at most as many as the bound. -/
def key? : Nat → List Char → Option (List String × List Char)
  | 0, _ => none
  | n + 1, s => do
    let (part, s) ← simpleKey? (skipBlanks s)
    match skipBlanks s with
    | '.' :: s =>
      let (parts, s) ← key? n s
      return (part :: parts, s)
    | s => return ([part], s)

end Toml
end Bridgework
