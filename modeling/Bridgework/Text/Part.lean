/-!
# Parts of texts

- `endsIn`, `hasPart` : whether a text ends in another, or has it as a part
- `replaceAll` : every occurrence of a part replaced, from left to right
-/

namespace Bridgework
namespace Text

def endsIn (s tail : String) : Bool := tail.toList.isSuffixOf s.toList

/-- Whether a list has another as a part of consecutive members. -/
def hasPart (part : List Char) : List Char → Bool
  | [] => part.isEmpty
  | c :: s => part.isPrefixOf (c :: s) || hasPart part s

/-- Replaces the occurrences of a part. The number counts the characters of an occurrence that are
still to be left out. -/
def replaceFrom (part value : List Char) : Nat → List Char → List Char
  | _, [] => []
  | n + 1, _ :: s => replaceFrom part value n s
  | 0, c :: s =>
    if part.isPrefixOf (c :: s) then value ++ replaceFrom part value (part.length - 1) s
    else c :: replaceFrom part value 0 s

/-- Replaces every occurrence of a part that is not empty, from left to right. -/
def replaceAll (part value s : String) : String :=
  String.ofList (replaceFrom part.toList value.toList 0 s.toList)

end Text
end Bridgework
