import Bridgework.Heap.Snapshot
import Bridgework.Image.MemoryMap
import Bridgework.Install.ModuleName
import Bridgework.Testbed.Program
import Bridgework.Testbed.Specimen

/-!
# The state of an interpreter

The objects that exist, the modules that are loaded, and the libraries that are mapped. What an object
looks like can depend on which modules are loaded, so shapes are read off the state.

- `Entity` : what an object is made of
- `Interpreter` : the state
- `Interpreter.shapeOf` : the shape of an object in a state
- `Interpreter.ranges` : the addresses of the mapped libraries
-/

namespace Bridgework
namespace Testbed

inductive Entity where
  /-- An object whose shape does not depend on anything. -/
  | fixed (shape : Shape)
  /-- A module: its file, and the directory in which its parts are looked for. -/
  | module (file directory : Option String)
  /-- A class: the module that it says it is from, its bases, and whether its objects have a
  dictionary. -/
  | class_ (origin : String) (bases : List ObjectId) (hasDictionary : Bool)
  | instance (class_ : ObjectId)
  /-- An object of a subclass of the partial calls: its class, and what it calls. -/
  | partialInstance (class_ function : ObjectId)
  /-- An object that is an array function if its class is known for that. -/
  | arrayFunction (class_ : ObjectId) (loops : List UInt64)

/-- An object: what it is made of, and its attributes, of which the last of one name counts. -/
structure HeapObject where
  entity : Entity
  attributes : SortedMap String ObjectId

structure Interpreter where
  /-- The directory of the program. -/
  root : String
  objects : SortedMap ObjectId HeapObject
  /-- The loaded modules by name. -/
  modules : SortedMap String ObjectId
  /-- The objects that were built, by label. -/
  labels : SortedMap String ObjectId
  /-- The objects of the interpreter itself that were used. -/
  builtins : SortedMap String ObjectId
  /-- The mapped libraries by path, each with the number of its copy. -/
  libraries : SortedMap String Nat

namespace Interpreter

/-! ## Changes -/

def alloc (i : Interpreter) (e : Entity) : ObjectId × Interpreter :=
  let id := UInt64.ofNat (i.objects.size + 1)
  (id, { i with objects := i.objects.insert id ⟨e, .empty⟩ })

def setAttribute (i : Interpreter) (owner : ObjectId) (name : String) (target : ObjectId) : Interpreter :=
  match i.objects.get? owner with
  | none => i
  | some o =>
    { i with objects := i.objects.insert owner { o with attributes := o.attributes.insert name target } }

/-- Maps a library, if it is not mapped yet, and answers the number of its copy. -/
def mapLibrary (i : Interpreter) (path : String) : Nat × Interpreter :=
  match i.libraries.get? path with
  | some copy => (copy, i)
  | none => (i.libraries.size, { i with libraries := i.libraries.insert path i.libraries.size })

/-- The state before a program runs: two modules are loaded. -/
def start (root : String) : Interpreter :=
  let i : Interpreter := ⟨root, .empty, .empty, .empty, .empty, .empty⟩
  let (sys, i) := i.alloc (.module none none)
  let (json, i) := i.alloc (.module (some "/usr/lib/json/__init__.py") (some "/usr/lib/json"))
  { i with modules := (i.modules.insert "sys" sys).insert "json" json }

/-! ## Reading objects -/

def entity? (i : Interpreter) (id : ObjectId) : Option Entity := (i.objects.get? id).map (·.entity)

def attribute? (i : Interpreter) (id : ObjectId) (name : String) : Option ObjectId :=
  (i.objects.get? id).bind fun o => o.attributes.get? name

/-- The directory in which the parts of a module are looked for. -/
def directoryOf (i : Interpreter) (id : ObjectId) : Option String :=
  match i.entity? id with
  | some (.module _ directory) => directory
  | _ => none

def hasDictionary (i : Interpreter) (id : ObjectId) : Bool :=
  match i.entity? id with
  | some (.class_ _ _ b) => b
  | _ => false

/-- Whether the objects of a class can be called: the class or one of its bases says how. The bases of a
class are older than the class, so the bound is never met. -/
def callsInstances (i : Interpreter) : Nat → ObjectId → Bool
  | 0, _ => false
  | n + 1, id =>
    (i.attribute? id "__call__").isSome ||
      match i.entity? id with
      | some (.class_ _ bases _) => bases.any (i.callsInstances n)
      | _ => false

def isNativeModule (i : Interpreter) (name : String) : Bool :=
  match (i.modules.get? name).bind i.entity? with
  | some (.module (some file) _) =>
    match (Path.parts file.toList).getLast? with
    | some (.name piece) => Install.isSharedObject (String.ofList piece)
    | _ => false
  | _ => false

def isArrayFunctionClass (i : Interpreter) (id : ObjectId) : Bool :=
  match i.modules.get? "numpy" with
  | some m => i.attribute? m "ufunc" == some id
  | none => false

/-- The shape of a native type of which nothing lies in a library. -/
def outsideType : Shape := .native .type [Specimen.outside] none

def classShape (i : Interpreter) (origin : String) : Shape :=
  if i.isNativeModule origin then outsideType else .interpretedClass

def isNativeType (i : Interpreter) (id : ObjectId) : Bool :=
  match i.entity? id with
  | some (.fixed (.native .type _ _)) => true
  | some (.class_ origin _ _) => i.isNativeModule origin
  | _ => false

def instanceShape (i : Interpreter) (c : ObjectId) : Shape :=
  if i.callsInstances i.objects.size c then .callableInstance c
  else if i.isNativeType c then .instance c
  else .data

def shapeOf (i : Interpreter) : Entity → Shape
  | .fixed shape => shape
  | .module file _ => .module file
  | .class_ origin _ _ => i.classShape origin
  | .instance c => i.instanceShape c
  | .partialInstance c _ => .callableInstance c
  | .arrayFunction c loops =>
    if i.isArrayFunctionClass c then .native .ufunc loops none else i.instanceShape c

def object (i : Interpreter) (id : ObjectId) : Except Error HeapObject :=
  match i.objects.get? id with
  | some o => .ok o
  | none => .error (.introspection ("unknown object " ++ toString id.toNat))

/-- What can be asked about the objects, given what the imports of modules give. -/
def model (i : Interpreter) (imports : String → Except Raised ObjectId) : ObjectModel where
  importModule name :=
    match imports name with
    | .ok id => .ok id
    | .error r => .error (.introspection r.display)
  shape id := (i.object id).map fun o => i.shapeOf o.entity
  attributes id := (i.object id).map fun o => o.attributes.toList

def ranges (i : Interpreter) : SortedMap String LoadRange :=
  i.libraries.mapValues fun _ copy =>
    ⟨UInt64.ofNat (Specimen.base copy), UInt64.ofNat (Specimen.base copy + Specimen.size)⟩

end Interpreter
end Testbed
end Bridgework
