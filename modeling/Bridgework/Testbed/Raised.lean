import Bridgework.Text.Quoted

/-!
# Raised exceptions

- `Raised` : the class of an exception and its text
- `Raised.display` : how an exception is written in an error
-/

namespace Bridgework
namespace Testbed

/-- An exception that ended a computation in the interpreter. -/
structure Raised where
  className : String
  text : String
  deriving DecidableEq, Repr

namespace Raised

/-- The class and the text. A missing key is shown as the interpreter shows a value, in quotes. -/
def display (r : Raised) : String :=
  r.className ++ ": " ++ if r.className = "KeyError" then Text.quotedPlain r.text else r.text

def notText (className : String) : Raised :=
  ⟨"TypeError", "'" ++ className ++ "' object cannot be converted to 'PyString'"⟩

def notFound (name : String) : Raised :=
  ⟨"ModuleNotFoundError", "No module named " ++ Text.quotedPlain name⟩

def notPackage (name parent : String) : Raised :=
  ⟨"ModuleNotFoundError",
    "No module named " ++ Text.quotedPlain name ++ "; " ++ Text.quotedPlain parent ++ " is not a package"⟩

def noAttribute (name : String) : Raised := ⟨"AttributeError", name⟩

def shortFile (path : String) : Raised := ⟨"ImportError", path ++ ": file too short"⟩

def tooDeep : Raised := ⟨"RecursionError", "maximum recursion depth exceeded"⟩

def noName : Raised := ⟨"ValueError", "Empty module name"⟩

end Raised
end Testbed
end Bridgework
