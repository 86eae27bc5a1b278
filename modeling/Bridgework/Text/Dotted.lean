import Bridgework.Text.Whitespace

/-!
# Dotted names

Names of modules and of what they hold, with dots between the parts.

- `dottedParts` : the parts, at least one
- `firstPart`, `lastPart` : the ends
- `isIdentifier` : what can stand between dots in a program
-/

namespace Bridgework
namespace Text

def dottedParts (s : String) : List String := split s '.'

def firstPart (s : String) : String := String.ofList (s.toList.takeWhile (· != '.'))

def lastPart (s : String) : String :=
  String.ofList ((splitOnChar '.' s.toList).getLast?.getD [])

def isIdentifierStart (c : Char) : Bool := c.isAlpha || c == '_'

/-- An identifier of ASCII letters, digits and underscores, not starting with a digit. -/
def isIdentifierChars : List Char → Bool
  | [] => false
  | c :: s => isIdentifierStart c && s.all fun d => isIdentifierStart d || d.isDigit

def isIdentifier (s : String) : Bool := isIdentifierChars s.toList

end Text
end Bridgework
