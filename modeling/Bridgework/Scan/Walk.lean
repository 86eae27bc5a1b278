import Bridgework.Heap.Callable
import Bridgework.Path
import Bridgework.Settings.Basic
import Bridgework.Text.Dotted

/-!
# Walks through objects

A walk goes from a module to its attributes, to the attributes of those, and so on, breadth first and in
the order of attribute names. It examines each object once, keeps to modules below a root, and ends when
there is no more room for objects.

- `Scan.Found` : an object that enters native code, under its best name so far
- `Scan.Walk` : what a walk has met
- `Scan.Walk.visit` : one attribute
- `Scan.Walk.fromModule` : the walk from one module
-/

namespace Bridgework
namespace Scan

/-! ## Names -/

/-- Compares dotted names: fewer parts come first, then text order decides. -/
def compareNames (a b : String) : Ordering :=
  (compare (Text.dottedParts a).length (Text.dottedParts b).length).then (compare a b)

/-- An object that enters native code. -/
structure Found where
  entry : NativeEntry
  /-- The least name under which the object was met. -/
  name : String
  /-- The module from which it was met first. -/
  origin : String
  deriving DecidableEq, Repr

def Found.offer (f : Found) (name : String) : Found :=
  if compareNames name f.name == .lt then { f with name } else f

/-! ## Walks -/

structure Ground where
  model : ObjectModel
  /-- The directory of the package. -/
  root : String
  settings : ScanSettings

def Ground.modulePath? (g : Ground) : Shape → Option String
  | .module (some file) => Path.below? file g.root
  | _ => none

structure Walk where
  /-- The objects met, the latest first. -/
  seen : List ObjectId
  /-- The objects that enter native code, a table by identity. Nothing may depend on the order in which
  it lists them. -/
  found : List (ObjectId × Found)
  /-- How many objects were examined. -/
  examined : Nat
  /-- How many of them can be called. -/
  callable : Nat
  /-- Whether there was no more room for objects. -/
  exhausted : Bool

/-- An object whose attributes are still to be visited. -/
structure Waiting where
  id : ObjectId
  name : String
  depth : Nat

namespace Walk

def start : Walk := ⟨[], [], 0, 0, false⟩

/-- Offers a name for an object, if it is one that enters native code. -/
def offer (w : Walk) (id : ObjectId) (name : String) : Walk :=
  { w with found := w.found.map fun f => if f.1 = id then (f.1, f.2.offer name) else f }

def meet (w : Walk) (id : ObjectId) : Walk := { w with seen := id :: w.seen }

def examine (g : Ground) (w : Walk) (id : ObjectId) (name origin : String) : Walk :=
  let verdict := g.model.classify id g.settings.maxUnwrapDepth
  { w with
    examined := w.examined + 1
    callable := if verdict.isCallable then w.callable + 1 else w.callable
    found := match verdict.entry? with
      | some entry => w.found ++ [(id, ⟨entry, name, origin⟩)]
      | none => w.found }

/-- Visits one attribute of an object. What is met for the first time waits for its turn; modules
outside the root are passed over. -/
def visit (g : Ground) (origin : String) (owner : Waiting) (state : Walk × List Waiting)
    (member : String × ObjectId) : Walk × List Waiting :=
  let (w, queue) := state
  let (key, id) := member
  if w.exhausted then state
  else
    let name := owner.name ++ "." ++ key
    let w := w.offer id name
    if g.settings.maxDepth < owner.depth + 1 || w.seen.contains id then (w, queue)
    else if g.settings.maxObjects ≤ w.seen.length then ({ w with exhausted := true }, queue)
    else
      match g.model.shape id with
      | .error _ => (w.meet id, queue)
      | .ok shape =>
        if shape.isModule && (g.modulePath? shape).isNone then (w, queue)
        else ((w.meet id).examine g id name origin, queue ++ [⟨id, name, owner.depth + 1⟩])

/-- The attributes of an object in the order of their names. -/
def attributesOf (g : Ground) (id : ObjectId) : List (String × ObjectId) :=
  match g.model.attributes id with
  | .ok l => l.mergeSort fun a b => (compare a.1 b.1).isLE
  | .error _ => []

/-- Visits the attributes of waiting objects, one object after another. The fuel bounds the number of
objects that get their turn. -/
def advance (g : Ground) (origin : String) : Nat → Walk → List Waiting → Walk
  | 0, w, _ => w
  | _ + 1, w, [] => w
  | fuel + 1, w, owner :: queue =>
    let (w, queue) := (attributesOf g owner.id).foldl (visit g origin owner) (w, queue)
    if w.exhausted then w else advance g origin fuel w queue

/-- The walk from a module, unless it was met before. There is room for no more objects than the
settings say, so one more unit of fuel is enough. -/
def fromModule (g : Ground) (name : String) (id : ObjectId) (w : Walk) : Walk :=
  if w.seen.contains id then w
  else advance g name (g.settings.maxObjects + 1) (w.meet id) [⟨id, name, 0⟩]

end Walk
end Scan
end Bridgework
