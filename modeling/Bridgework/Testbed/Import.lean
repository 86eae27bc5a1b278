import Bridgework.Testbed.Interpreter

/-!
# Running a program

Importing a module imports what is above it, runs it, and makes it an attribute of the module above. A
module that fails is forgotten, but the objects that it has built stay.

- `Exec` : what changes the state of an interpreter and may raise an exception
- `Exec.importModule`, `Exec.build` : importing a module, building the object of a label
- `Exec.imports` : several imports one after another
-/

namespace Bridgework
namespace Testbed

/-- What changes the state of an interpreter and may raise an exception. -/
abbrev Exec := ExceptT Raised (StateM Interpreter)

namespace Exec

/-! ## Steps -/

def alloc (e : Entity) : Exec ObjectId := do
  let (id, i) := (← get).alloc e
  set i
  return id

def setAttribute (owner : ObjectId) (name : String) (target : ObjectId) : Exec Unit :=
  modify fun i => i.setAttribute owner name target

def remember (label : String) (id : ObjectId) : Exec ObjectId := do
  modify fun i => { i with labels := i.labels.insert label id }
  return id

def register (name : String) (id : ObjectId) : Exec Unit :=
  modify fun i => { i with modules := i.modules.insert name id }

def forget (name : String) : Exec Unit :=
  modify fun i => { i with modules := i.modules.erase name }

/-- The copy of the specimen in a file. -/
def copyAt (path : String) : Exec Nat := do
  let (copy, i) := (← get).mapLibrary path
  set i
  return copy

def getAttribute (owner : ObjectId) (name : String) : Exec ObjectId := do
  match (← get).attribute? owner name with
  | some id => return id
  | none => throw (.noAttribute name)

/-! ## Extensions -/

def member (copy : Nat) (owner : ObjectId) : Specimen.Member → Exec ObjectId
  | .callable e => alloc (.fixed (.native e.kind (e.addresses copy) none))
  | .alias name => getAttribute owner name
  | .type slots attributes => do
    let id ← alloc (.fixed (.native .type (slots.map (Specimen.address copy) ++ [Specimen.outside]) none))
    for (name, e) in attributes do
      setAttribute id name (← alloc (.fixed (.native e.kind (e.addresses copy) none)))
    return id
  | .object type => do alloc (.instance (← getAttribute owner type))
  | .anonymous slots => do
    let entries := slots.map (Specimen.address copy) ++ [Specimen.outside]
    alloc (.instance (← alloc (.fixed (.native .type entries none))))
  | .arrayFunction type loops => do
    alloc (.arrayFunction (← getAttribute owner type) (loops.map (Specimen.address copy)))

def fill (path : String) (id : ObjectId) : Exec Unit := do
  let copy ← copyAt path
  for (name, m) in Specimen.members do
    setAttribute id name (← member copy id m)

/-! ## Objects of the interpreter itself -/

def builtinShape : String → Shape
  | "append" => .native .methodDescriptor [Specimen.outside] none
  | "upper" => .native .methodDescriptor [Specimen.outside] none
  | "int_add" => .native .wrapperDescriptor [Specimen.outside] none
  | "five_add" => .native .methodWrapper [Specimen.outside] none
  | "code" => .native .getSetDescriptor [Specimen.outside] none
  | "globals" => .data
  | _ => .native .builtinFunction [Specimen.outside] none

/-- Whether each use of a name makes a new object. -/
def isFresh (name : String) : Bool := name == "fromkeys" || name == "five_add"

def builtin (name : String) : Exec ObjectId := do
  match (← get).builtins.get? name with
  | some id => return id
  | none =>
    let id ← alloc (.fixed (builtinShape name))
    if !isFresh name then modify fun i => { i with builtins := i.builtins.insert name id }
    return id

def pointer (addresses : List UInt64) (declared : Option String) : Exec ObjectId :=
  alloc (.fixed (.native .ffiPointer addresses declared))

/-- What a partial call of an object calls in the end. -/
def partialTarget (id : ObjectId) : Exec ObjectId := do
  match (← get).entity? id with
  | some (.fixed (.wrapper .partialCall inner)) => return inner
  | some (.partialInstance _ function) => return function
  | _ => return id

/-! ## Modules -/

/-- The file that a module says it is from. -/
def claimedFile (root path : String) (m : ModuleSpec) : Option String :=
  match m.file with
  | none => some (root ++ "/" ++ path)
  | some none => none
  | some (some file) => some (if file.startsWith "/" then file else root ++ "/" ++ file)

def splitName (name : String) : String × String :=
  let parts := Text.split name '.'
  (String.intercalate "." parts.dropLast, parts.getLast?.getD "")

mutual

def importModule (p : Program) : Nat → String → Exec ObjectId
  | 0, _ => throw .tooDeep
  | n + 1, name => do
    if name.isEmpty then throw .noName
    match (← get).modules.get? name with
    | some id => return id
    | none =>
      let (parent, tail) := splitName name
      if parent.isEmpty then
        match p.find? "" tail with
        | some found => load p n name found
        | none => throw (.notFound name)
      else
        -- The package comes first, and importing it may have brought the module itself.
        let above ← importModule p n parent
        match (← get).modules.get? name with
        | some id => return id
        | none =>
          match (← get).directoryOf above with
          | none => throw (.notPackage name parent)
          | some directory =>
            match p.find? directory tail with
            | none => throw (.notFound name)
            | some found =>
              -- A module becomes an attribute of its package once it is loaded.
              let id ← load p n name found
              setAttribute above tail id
              return id

def load (p : Program) : Nat → String → Location → Exec ObjectId
  | 0, _, _ => throw .tooDeep
  | n + 1, name, found => do
    match found with
    | .directory directory =>
      let id ← alloc (.module none (some directory))
      register name id
      return id
    | .package directory file => loadFile p n name file (some directory)
    | .file file => loadFile p n name file none

def loadFile (p : Program) : Nat → String → String → Option String → Exec ObjectId
  | 0, _, _, _ => throw .tooDeep
  | n + 1, name, file, directory => do
    let m := p.moduleAt file
    let root := (← get).root
    if m.native then
      let id ← alloc (.module (some (root ++ "/" ++ file)) none)
      register name id
      fill file id
      return id
    else if file.endsWith ".so" then throw (.shortFile (root ++ "/" ++ file))
    else
      let id ← alloc (.module (claimedFile root file m) directory)
      register name id
      -- A module that fails is as if it had never been imported.
      tryCatch (runModule p n id m) fun e => do
        forget name
        throw e
      return id

def runModule (p : Program) : Nat → ObjectId → ModuleSpec → Exec Unit
  | 0, _, _ => throw .tooDeep
  | n + 1, id, m => do
    for (name, label) in m.attributes do
      setAttribute id name (← build p n label)
    for label in m.unnamed.toList do
      let _ ← build p n label
    match m.raises with
    | some r => throw r
    | none => return

/-- Builds the object of a label, unless it is there. -/
def build (p : Program) : Nat → String → Exec ObjectId
  | 0, _ => throw .tooDeep
  | n + 1, label => do
    match (← get).labels.get? label with
    | some id => return id
    | none =>
      match p.objects.get? label with
      | none => throw ⟨"KeyError", label⟩
      | some spec => construct p n label spec

/-- Builds an object. A class is remembered before its attributes are built, so that they can refer to
it. -/
def construct (p : Program) : Nat → String → ObjectSpec → Exec ObjectId
  | 0, _, _ => throw .tooDeep
  | n + 1, label, spec => do
    match spec with
    | .data holds =>
      for inner in holds.toList do
        let _ ← build p n inner
      remember label (← alloc (.fixed .data))
    | .function holds =>
      for inner in holds.toList do
        let _ ← build p n inner
      remember label (← alloc (.fixed .interpretedFunction))
    -- Bases are made before the class, and attributes after it, so that they may mention it.
    | .classDef origin slots bases attributes =>
      let mut above := #[]
      for base in bases do
        above := above.push (← build p n base)
      let bases := above.toList
      let i ← get
      let inherited := bases.any i.hasDictionary
      let id ← alloc (.class_ origin bases (inherited || !slots))
      let _ ← remember label id
      -- A class without slots brings the two descriptors itself, unless a base has them.
      if !inherited && !slots then
        for name in ["__dict__", "__weakref__"] do
          setAttribute id name (← alloc (.fixed (.native .getSetDescriptor [Specimen.outside] none)))
      for (name, inner) in attributes do
        setAttribute id name (← build p n inner)
      return id
    | .instance c =>
      let c ← build p n c
      remember label (← alloc (.instance c))
    | .wrapper kind inner =>
      let inner ← build p n inner
      -- Partial calls are flattened: one of a partial call stands for the innermost function.
      let target ← if kind = .partialCall then partialTarget inner else pure inner
      remember label (← alloc (.fixed (.wrapper kind target)))
    | .partialSubclass inner =>
      let function ← partialTarget (← build p n inner)
      let c ← alloc (.fixed .interpretedClass)
      remember label (← alloc (.partialInstance c function))
    | .builtin name => remember label (← builtin name)
    | .digest =>
      let c ← alloc (.fixed Interpreter.outsideType)
      remember label (← alloc (.instance c))
    | .module name => remember label (← importModule p n name)
    | .native name member => remember label (← getAttribute (← importModule p n name) member)
    | .nativeMember name type member =>
      let type ← getAttribute (← importModule p n name) type
      remember label (← getAttribute type member)
    | .pointer library symbol declared =>
      let copy ← copyAt library
      remember label (← pointer [Specimen.address copy symbol] declared)
    | .nullPointer declared => remember label (← pointer [] declared)
    | .callback declared => remember label (← pointer [Specimen.outside] declared)

end

/-- How many steps may be under way at once. -/
def maxDepth : Nat := 4000

def imports (p : Program) :
    List String → Interpreter → List (String × Except Raised ObjectId) × Interpreter
  | [], i => ([], i)
  | name :: names, i =>
    let (r, i) := StateT.run (ExceptT.run (importModule p maxDepth name)) i
    let (rs, i) := imports p names i
    ((name, r) :: rs, i)

end Exec
end Testbed
end Bridgework
