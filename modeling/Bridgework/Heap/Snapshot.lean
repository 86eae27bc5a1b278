import Bridgework.Collection.SortedMap
import Bridgework.Error
import Bridgework.Heap.Shape
import Bridgework.Json.Printer
import Bridgework.Json.Reader
import Bridgework.Text.Digit

/-!
# Snapshots

The objects of a running program, as far as an inspection has gone, and what any inspection can ask.

- `ObjectModel` : the questions that can be asked about objects, each of which may fail
- `Snapshot` : recorded objects
- `Snapshot.model` : a snapshot answers the questions
- `Snapshot.render`, `Snapshot.parse` : its text
-/

namespace Bridgework

/-- What can be asked about the objects of a program. -/
structure ObjectModel where
  /-- The module of a dotted name. -/
  importModule : String → Except Error ObjectId
  shape : ObjectId → Except Error Shape
  /-- The attributes of an object, in any order. -/
  attributes : ObjectId → Except Error (List (String × ObjectId))

/-! ## Recorded objects -/

structure SnapshotObject where
  shape : Shape
  attributes : SortedMap String ObjectId
  deriving DecidableEq

namespace SnapshotObject

def toJson (o : SnapshotObject) : Json :=
  .object [("shape", o.shape.toJson),
    ("attributes", .object (o.attributes.toList.map fun a => (a.1, .nat a.2.toNat)))]

def ofJson? (j : Json) : Option SnapshotObject := do
  let r ← j.record ["shape", "attributes"]
  return ⟨← r.required "shape" Shape.ofJson?,
    ← r.withDefault "attributes" .empty (Json.asMap Json.asWord)⟩

end SnapshotObject

structure Snapshot where
  modules : SortedMap String ObjectId
  objects : SortedMap ObjectId SnapshotObject
  deriving DecidableEq

namespace Snapshot

def empty : Snapshot := ⟨.empty, .empty⟩

/-- Records an object without attributes, in place of one of the same identity. -/
def insert (s : Snapshot) (id : ObjectId) (shape : Shape) : Snapshot :=
  { s with objects := s.objects.insert id ⟨shape, .empty⟩ }

def addModule (s : Snapshot) (name : String) (id : ObjectId) (shape : Shape) : Snapshot :=
  { s.insert id shape with modules := s.modules.insert name id }

def setAttribute (s : Snapshot) (owner : ObjectId) (name : String) (target : ObjectId) : Snapshot :=
  match s.objects.get? owner with
  | none => s
  | some o =>
    { s with objects := s.objects.insert owner { o with attributes := o.attributes.insert name target } }

/-! ## Answers -/

def object (s : Snapshot) (id : ObjectId) : Except Error SnapshotObject :=
  match s.objects.get? id with
  | some o => .ok o
  | none => .error (.introspection ("unknown object 0x" ++ Text.hexText id.toNat))

def model (s : Snapshot) : ObjectModel where
  importModule name :=
    match s.modules.get? name with
    | some id => .ok id
    | none => .error (.notFound ("module " ++ name))
  shape id := (s.object id).map (·.shape)
  attributes id := (s.object id).map (·.attributes.toList)

/-! ## Text -/

def toJson (s : Snapshot) : Json :=
  .object [("modules", .object (s.modules.toList.map fun m => (m.1, .nat m.2.toNat))),
    ("objects", .object (s.objects.toList.map fun o => (toString o.1.toNat, o.2.toJson)))]

def ofJson? (j : Json) : Option Snapshot := do
  let r ← j.record ["modules", "objects"]
  let objects ← r.withDefault "objects" [] (Json.asNumbered SnapshotObject.ofJson?)
  return ⟨← r.withDefault "modules" .empty (Json.asMap Json.asWord),
    .ofList (objects.map fun o => (UInt64.ofNat o.1, o.2))⟩

def render (s : Snapshot) : String := s.toJson.render

def parse (text : String) : Except Error Snapshot :=
  match (Json.parse? text).bind ofJson? with
  | some s => .ok s
  | none => .error .unexpectedForm

end Snapshot
end Bridgework
