import Bridgework.Text.Part

/-!
# Argument templates

Arguments of a command in which placeholders stand for a file to read, a file to write and a name.

- `inputMark`, `outputMark`, `nameMark` : the placeholders
- `Placeholders`, `Placeholders.fill` : what the placeholders stand for, and a template with it
-/

namespace Bridgework
namespace Command

def inputMark : String := "{input}"

def outputMark : String := "{output}"

def nameMark : String := "{name}"

structure Placeholders where
  input : String
  output : String
  name : String
  deriving DecidableEq, Repr

/-- A template with its placeholders replaced, one after another: what an earlier one stands for is
searched for the later ones. -/
def Placeholders.fill (p : Placeholders) (template : String) : String :=
  Text.replaceAll nameMark p.name
    (Text.replaceAll outputMark p.output (Text.replaceAll inputMark p.input template))

end Command
end Bridgework
