/-!
# Blank characters

The characters of the Unicode property `White_Space`, and trimming by them.

- `isBlank` : the property
- `trimChars`, `trim` : a text without the blanks at its two ends
- `lines` : the lines of a text, each without its line end
-/

namespace Bridgework
namespace Text

/-! ## The property -/

/-- The characters with the Unicode property `White_Space`. -/
def isBlank (c : Char) : Bool :=
  let n := c.toNat
  (9 ≤ n && n ≤ 13) || n == 0x20 || n == 0x85 || n == 0xa0 || n == 0x1680 ||
    (0x2000 ≤ n && n ≤ 0x200a) || n == 0x2028 || n == 0x2029 || n == 0x202f || n == 0x205f ||
    n == 0x3000

/-! ## Trimming -/

def trimStart (s : List Char) : List Char := s.dropWhile isBlank

def trimEnd (s : List Char) : List Char := (s.reverse.dropWhile isBlank).reverse

def trimChars (s : List Char) : List Char := trimEnd (trimStart s)

def trim (s : String) : String := String.ofList (trimChars s.toList)

/-! ## Lines -/

/-- Cuts at each occurrence of a character; `n` cuts give `n + 1` pieces. -/
def splitOnChar (sep : Char) : List Char → List (List Char)
  | [] => [[]]
  | c :: s =>
    if c = sep then [] :: splitOnChar sep s
    else
      match splitOnChar sep s with
      | [] => [[c]]
      | p :: ps => (c :: p) :: ps

theorem splitOnChar_ne_nil (sep : Char) (s : List Char) : splitOnChar sep s ≠ [] := by
  cases s with
  | nil => simp [splitOnChar]
  | cons c s =>
    rw [splitOnChar]
    split
    · simp
    · split <;> simp

def split (s : String) (sep : Char) : List String :=
  (splitOnChar sep s.toList).map String.ofList

def dropCarriageReturn (l : List Char) : List Char :=
  if l.getLast? = some '\r' then l.dropLast else l

/-- The lines of a text. A line ends with a line feed, or with a carriage return and a line feed;
the end of the text ends the last line, unless that is empty. -/
def lines (s : List Char) : List (List Char) :=
  let pieces := splitOnChar '\n' s
  let ended := pieces.dropLast.map dropCarriageReturn
  match pieces.getLast? with
  | none => ended
  | some [] => ended
  | some last => ended ++ [last]

end Text
end Bridgework
