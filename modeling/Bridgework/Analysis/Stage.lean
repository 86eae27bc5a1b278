import Bridgework.Bridge
import Bridgework.CallGraph.Interpreted
import Bridgework.CallGraph.Native
import Bridgework.Install.Tree
import Bridgework.Json.Reader
import Bridgework.Memo.Store
import Bridgework.Settings.Basic

/-!
# Stages of an analysis

An analysis asks collaborators for call graphs and bridge reports, and keeps in a cache what it was
given. Collaborators may have a state of their own.

- `Collaborators` : who is asked
- `Session`, `Stage` : the cache together with the state of the collaborators, and what changes them
- `Codec` : results as documents
- `Stage.cached` : a result that is taken from the cache, or computed and kept there
- `Stage.each` : a stage for each member of a list, up to the first failure
-/

namespace Bridgework

/-- Who an analysis asks, with the states that the asking changes. -/
structure Collaborators (σ : Type) where
  /-- The call graph of a library of a package, within a number of seconds if one is given. -/
  nativeGraph : InstalledPackage → Library → Option Nat → σ → Except Error NativeGraph × σ
  /-- The bridges of a package. -/
  bridgeReport : InstalledPackage → ScanSettings → σ → Except Error BridgeReport × σ
  /-- The call graph of the interpreted code of a package. -/
  interpretedGraph : InstalledPackage → σ → Except Error InterpretedGraph × σ

structure Session (σ : Type) where
  store : Memo.Store
  world : σ

/-! ## Stages -/

def Stage (σ α : Type) : Type := Session σ → Except Error α × Session σ

namespace Stage

variable {σ α β : Type}

protected def pure (a : α) : Stage σ α := fun s => (.ok a, s)

/-- One stage after another; a failure ends both. -/
protected def bind (x : Stage σ α) (f : α → Stage σ β) : Stage σ β := fun s =>
  match x s with
  | (.ok a, s) => f a s
  | (.error e, s) => (.error e, s)

instance : Monad (Stage σ) where
  pure := Stage.pure
  bind := Stage.bind

/-- A stage for each member of a list, up to the first failure. -/
def each (f : α → Stage σ β) : List α → Stage σ (List β)
  | [] => pure []
  | a :: l => do
    let b ← f a
    let bs ← each f l
    return b :: bs

/-- Turns a failure into a result. -/
def caught (x : Stage σ α) : Stage σ (Except Error α) := fun s => (.ok (x s).1, (x s).2)

end Stage

/-! ## Results as documents -/

structure Codec (α : Type) where
  toJson : α → Json
  ofJson : Json → Except Error α

namespace Codec

variable {α : Type}

/-- A codec whose reader only says that the form is wrong. -/
def ofOption (toJson : α → Json) (ofJson? : Json → Option α) : Codec α where
  toJson := toJson
  ofJson j :=
    match ofJson? j with
    | some a => .ok a
    | none => .error .unexpectedForm

def render (c : Codec α) (a : α) : String := (c.toJson a).render

def parse (c : Codec α) (text : String) : Except Error α :=
  match Json.parse? text with
  | some j => c.ofJson j
  | none => .error .unexpectedForm

/-- What is kept of a result. -/
def computed (c : Codec α) : Except Error α → Memo.Computed
  | .ok a => .payload (c.render a)
  | .error e => .failed e

def result (c : Codec α) (k : Memo.Key) : Option Memo.Outcome → Except Error α
  | some (.payload text) => c.parse text
  | some (.failed e) => .error e
  | _ => .error (.computationFailed k.display Memo.abortReason)

end Codec

/-- A result that is taken from the cache, or computed and kept there. Either way it is read back from
the kept text. -/
def Stage.cached {σ α : Type} (k : Memo.Key) (c : Codec α) (compute : σ → Except Error α × σ) :
    Stage σ α := fun s =>
  let (o, store, world) := s.store.getOrCompute 0 k
    (fun w => (c.computed (compute w).1, (compute w).2)) s.world
  (c.result k o, ⟨store, world⟩)

end Bridgework
