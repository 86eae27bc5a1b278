import Bridgework.Path
import Bridgework.Text.Dotted
import Bridgework.Text.Part

/-!
# Names of module files

- `Install.isSharedObject` : whether a file name is that of a shared object
- `Install.moduleName?` : the dotted name under which a file can be imported
-/

namespace Bridgework
namespace Install

def isSharedObject (name : String) : Bool :=
  Text.endsIn name ".so" || Text.hasPart ".so.".toList name.toList

/-- The name of a module without what its file name adds: what stands before `.py`, or before the
first dot of a name in `.so`. -/
def stem? (file : String) : Option String :=
  if Text.endsIn file ".py" then some (String.ofList (file.toList.take (file.length - 3)))
  else if Text.endsIn file ".so" then some (Text.firstPart file)
  else none

/-- The dotted name of the module in a file: its directories and its stem, which all have to be
identifiers. The stem `__init__` stands for its directory. -/
def moduleName? (path : String) : Option String := do
  let parts := Text.split (Path.normalize path) '/'
  let stem ← stem? (← parts.getLast?)
  let directories := parts.dropLast
  if !directories.all Text.isIdentifier then none
  else if stem == "__init__" then
    if directories.isEmpty then none else some (".".intercalate directories)
  else if Text.isIdentifier stem then some (".".intercalate (directories ++ [stem]))
  else none

end Install
end Bridgework
