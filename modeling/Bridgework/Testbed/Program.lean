import Bridgework.Collection.SortedMap
import Bridgework.Heap.Shape
import Bridgework.Testbed.Raised
import Bridgework.Text.Whitespace

/-!
# Programs

A description of a program that an interpreter can run: modules in files, and objects that modules build
when they run.

- `ObjectSpec` : how an object is built; other objects are named by labels
- `ModuleSpec` : what a module does when it runs
- `Program` : modules, objects and further files
- `Program.find?` : where an import finds a module
- `Program.ofJson?` : a program from a document
-/

namespace Bridgework
namespace Testbed

/-! ## Objects -/

inductive ObjectSpec where
  /-- A value that cannot be called; it may hold another object. -/
  | data (holds : Option String)
  /-- A function; it may wrap another object without standing for it. -/
  | function (holds : Option String)
  /-- A class that says which module it is from. -/
  | classDef (origin : String) (slots : Bool) (bases : List String) (attributes : List (String × String))
  | instance (class_ : String)
  | wrapper (kind : WrapperKind) (inner : String)
  /-- An object of a subclass of the partial calls. -/
  | partialSubclass (inner : String)
  /-- An object of the interpreter itself. -/
  | builtin (name : String)
  /-- An object of a native type outside every library. -/
  | digest
  | module (name : String)
  /-- A member of a specimen extension. -/
  | native (name member : String)
  /-- An attribute of a type of a specimen extension. -/
  | nativeMember (name type member : String)
  /-- A pointer to a symbol of a library. -/
  | pointer (library symbol : String) (declared : Option String)
  /-- A pointer to nothing. -/
  | nullPointer (declared : Option String)
  /-- A pointer outside every library. -/
  | callback (declared : Option String)

namespace ObjectSpec

def wrapperKind? : String → Option WrapperKind
  | "decorated" => some .decorated
  | "cached" => some .decorated
  | "partial" => some .partialCall
  | "bound" => some .boundMethod
  | "staticmethod" => some .staticMethod
  | "classmethod" => some .classMethod
  | _ => none

def text? (j : Json) (name : String) : Option String := (j.member? name).bind Json.asString

def labels (j : Json) (name : String) : List (String × String) :=
  ((j.member? name).bind (Json.asMembers Json.asString)).getD []

def ofJson? (j : Json) : Option ObjectSpec := do
  let kind ← text? j "k"
  let inner := text? j "of"
  match kind with
  | "function" => return .function none
  | "wraps" => return .function inner
  | "class" =>
    return .classDef ((text? j "module").getD "nowhere")
      (((j.member? "slots").bind Json.asBool).getD false)
      (((j.member? "bases").bind (Json.asList Json.asString)).getD []) (labels j "attrs")
  | "instance" => return .instance (← inner)
  | "partial_subclass" => return .partialSubclass (← inner)
  | "builtin" => return .builtin (← text? j "name")
  | "digest" => return .digest
  | "module" => return .module (← text? j "name")
  | "native" => return .native (← text? j "module") (← text? j "attr")
  | "native_member" =>
    return .nativeMember (← text? j "module") (← text? j "type") (← text? j "attr")
  | "ffi" =>
    let symbol ← text? j "symbol"
    return .pointer (← text? j "library") symbol (some symbol)
  | "ffi_address" => return .pointer (← text? j "library") (← text? j "symbol") (text? j "name")
  | "ffi_null" => return .nullPointer (text? j "name")
  | "ffi_callback" => return .callback (text? j "name")
  | word =>
    match wrapperKind? word with
    | some k => return .wrapper k (← inner)
    | none => return .data inner

end ObjectSpec

/-! ## Modules -/

/-- What a module does when it runs. -/
structure ModuleSpec where
  /-- Whether it is a specimen extension. -/
  native : Bool
  /-- Whether it is a package. -/
  package : Bool
  /-- The attributes that it sets, by labels. -/
  attributes : List (String × String)
  /-- An object that it keeps without a name. -/
  unnamed : Option String
  /-- The file that it claims to be from, if it claims anything. -/
  file : Option (Option String)
  /-- The exception that it ends with. -/
  raises : Option Raised

namespace ModuleSpec

def empty : ModuleSpec := ⟨false, false, [], none, none, none⟩

def flag (j : Json) (name : String) : Bool := ((j.member? name).bind Json.asBool).getD false

def ofJson (j : Json) : ModuleSpec where
  native := flag j "native"
  package := flag j "package"
  attributes := ObjectSpec.labels j "attrs"
  unnamed := ObjectSpec.text? j "odd_key"
  file := (j.member? "file").map Json.asString
  raises := ((j.member? "raises").bind (Json.asPair Json.asString Json.asString)).map fun r => ⟨r.1, r.2⟩

def path (name : String) (m : ModuleSpec) : String :=
  let stem := String.intercalate "/" (Text.split name '.')
  if m.native then stem ++ ".so" else if m.package then stem ++ "/__init__.py" else stem ++ ".py"

end ModuleSpec

/-! ## Programs -/

structure Program where
  objects : SortedMap String ObjectSpec
  /-- The modules by their files. -/
  modules : SortedMap String ModuleSpec
  /-- Further files, all empty; a directory ends in a slash. -/
  files : List String

inductive Location where
  /-- A package: its directory and its file. -/
  | package (directory file : String)
  | file (file : String)
  /-- A directory that is no package. -/
  | directory (directory : String)

namespace Program

def parents : List String → List String
  | [] => []
  | [_] => []
  | a :: rest => a :: (parents rest).map fun b => a ++ "." ++ b

/-- The modules by their files. A parent that is not described is an empty package. -/
def placeModules (modules : List (String × ModuleSpec)) : SortedMap String ModuleSpec :=
  let described := modules.map Prod.fst
  let missing := (modules.flatMap fun m => parents (Text.split m.1 '.')).filter (!described.contains ·)
  let parents := missing.map fun name => (name, { ModuleSpec.empty with package := true })
  .ofList ((parents ++ modules).map fun m => (m.2.path m.1, m.2))

def paths (p : Program) : List String := p.modules.keys ++ p.files

def hasFile (p : Program) (path : String) : Bool := p.paths.contains path

def hasDirectory (p : Program) (path : String) : Bool :=
  p.paths.any fun f => (path ++ "/").toList.isPrefixOf f.toList

/-- Where a module is found in a directory: as a package, as an extension, as a source file, as a
directory. -/
def find? (p : Program) (directory name : String) : Option Location :=
  let stem := if directory.isEmpty then name else directory ++ "/" ++ name
  if name.isEmpty || name.toList.contains '/' then none
  else if p.hasFile (stem ++ "/__init__.py") then some (.package stem (stem ++ "/__init__.py"))
  else if p.hasFile (stem ++ ".so") then some (.file (stem ++ ".so"))
  else if p.hasFile (stem ++ ".py") then some (.file (stem ++ ".py"))
  else if p.hasDirectory stem then some (.directory stem)
  else none

def moduleAt (p : Program) (file : String) : ModuleSpec := (p.modules.get? file).getD .empty

def ofJson? (j : Json) : Option Program := do
  let absent (name : String) := ((j.member? name).getD .null) matches .null
  let modules ← if absent "modules" then some [] else (j.member? "modules").bind (Json.asMembers some)
  let objects ← if absent "objects" then some .empty else
    (j.member? "objects").bind (Json.asMap ObjectSpec.ofJson?)
  let files ← if absent "files" then some [] else (j.member? "files").bind (Json.asList Json.asString)
  return ⟨objects, placeModules (modules.map fun m => (m.1, .ofJson m.2)), files⟩

end Program
end Testbed
end Bridgework
