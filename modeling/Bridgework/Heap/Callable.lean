import Bridgework.Collection.SortedSet
import Bridgework.Heap.Snapshot

/-!
# Callables

Whether an object can be called, and where a call enters native code. An object may delegate calls to
another one; delegation is followed up to a bound.

- `NativeEntry` : where native code is entered
- `Verdict` : what an object is to its callers
- `Shape.delegate?` : the object that an object of some shape delegates to
- `ObjectModel.classify` : the verdict on an object
-/

namespace Bridgework

structure NativeEntry where
  kind : NativeKind
  /-- The addresses, without zero, each once and in increasing order. -/
  addresses : List UInt64
  declaredName : Option String
  deriving DecidableEq, Repr

def NativeEntry.of (kind : NativeKind) (entries : List UInt64) (declaredName : Option String) :
    NativeEntry :=
  ⟨kind, (SortedSet.ofList (entries.filter (· != 0))).toList, declaredName⟩

def NativeEntry.toJson (e : NativeEntry) : Json :=
  .object [("kind", .text e.kind.name), ("addresses", .list (fun a => .nat a.toNat) e.addresses),
    ("declared_name", .orNull Json.text e.declaredName)]

/-- What an object is to its callers. -/
inductive Verdict where
  | notCallable
  /-- Calls stay in interpreted code. -/
  | interpreted
  /-- Calls enter native code. -/
  | foreign (entry : NativeEntry)
  /-- The object is no callable, but its class is native. -/
  | nativeInstance (entry : NativeEntry)
  deriving DecidableEq, Repr

namespace Verdict

def isCallable : Verdict → Bool
  | .interpreted => true
  | .foreign _ => true
  | _ => false

def entry? : Verdict → Option NativeEntry
  | .foreign e => some e
  | .nativeInstance e => some e
  | _ => none

def name : Verdict → String
  | .notCallable => "not_callable"
  | .interpreted => "interpreted"
  | .foreign _ => "foreign"
  | .nativeInstance _ => "native_instance"

def toJson (v : Verdict) : Json :=
  .object [("class", .text v.name), ("callable", .bool v.isCallable),
    ("has_entry", .bool v.entry?.isSome), ("entry", .orNull NativeEntry.toJson v.entry?)]

end Verdict

/-- The object that calls are delegated to. -/
def Shape.delegate? : Shape → Option ObjectId
  | .wrapper _ inner => some inner
  | .callableInstance c => some c
  | _ => none

namespace ObjectModel

/-- The verdict on an object of a class that is no callable. -/
def instanceVerdict (m : ObjectModel) (c : ObjectId) : Verdict :=
  match m.shape c with
  | .ok (.native .type entries declaredName) => .nativeInstance (.of .type entries declaredName)
  | _ => .notCallable

/-- The verdict on an object that does not delegate. -/
def ownVerdict (m : ObjectModel) : Shape → Verdict
  | .interpretedFunction => .interpreted
  | .interpretedClass => .interpreted
  | .native kind entries declaredName => .foreign (.of kind entries declaredName)
  | .instance c => m.instanceVerdict c
  | _ => .notCallable

/-- Follows delegation up to a bound. An object that was met before ends in a cycle. -/
def classifyFrom (m : ObjectModel) : Nat → List ObjectId → ObjectId → Verdict
  | bound, met, id =>
    match m.shape id with
    | .error _ => .notCallable
    | .ok shape =>
      match shape.delegate? with
      | none => m.ownVerdict shape
      | some next =>
        if met.contains id then .notCallable
        else
          match bound with
          | 0 => .notCallable
          | n + 1 => m.classifyFrom n (id :: met) next

def classify (m : ObjectModel) (id : ObjectId) (bound : Nat) : Verdict := m.classifyFrom bound [] id

end ObjectModel
end Bridgework
