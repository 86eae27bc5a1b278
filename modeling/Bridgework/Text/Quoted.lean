import Bridgework.Text.Digit
import Bridgework.Text.Printable

/-!
# Quoted texts

How messages show a text that came from outside, so that its ends and its blanks can be seen.

- `quoted` : between double quotes; what does not show is written by its code point in braces
- `quotedPlain` : between single quotes where possible; what does not show is written with two, four
  or eight digits
-/

namespace Bridgework
namespace Text

/-! ## Between double quotes -/

def bracedEscape (c : Char) : String := "\\u\x7b" ++ hexText c.toNat ++ "\x7d"

def quotedChar (c : Char) : String :=
  if c.toNat = 0 then "\\0"
  else if c = '\t' then "\\t"
  else if c = '\r' then "\\r"
  else if c = '\n' then "\\n"
  else if c = '"' then "\\\""
  else if c = '\\' then "\\\\"
  else if isGraphemeExtend c then bracedEscape c
  else if isPrintable c then String.singleton c
  else bracedEscape c

def quoted (s : String) : String := "\"" ++ String.join (s.toList.map quotedChar) ++ "\""

/-! ## Between single quotes -/

/-- The quote around a text: single, unless the text holds single quotes and no double ones. -/
def outerQuote (s : List Char) : Char :=
  if s.contains '\'' && !s.contains '"' then '"' else '\''

def quotedPlainChar (quote c : Char) : String :=
  if c = quote || c = '\\' then String.ofList ['\\', c]
  else if c = '\t' then "\\t"
  else if c = '\r' then "\\r"
  else if c = '\n' then "\\n"
  else if c.toNat < 0x20 || c.toNat = 0x7f then "\\x" ++ hexPadded 2 c.toNat
  else if isPrintable c then String.singleton c
  else if c.toNat < 0x100 then "\\x" ++ hexPadded 2 c.toNat
  else if c.toNat < 0x10000 then "\\u" ++ hexPadded 4 c.toNat
  else "\\U" ++ hexPadded 8 c.toNat

/-- A text between single quotes, or between double ones if it holds single quotes only. -/
def quotedPlain (s : String) : String :=
  let quote := outerQuote s.toList
  String.singleton quote ++ String.join (s.toList.map (quotedPlainChar quote)) ++
    String.singleton quote

end Text
end Bridgework
