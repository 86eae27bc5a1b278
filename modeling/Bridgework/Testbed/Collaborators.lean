import Bridgework.Analysis.Batch
import Bridgework.CallGraph.Disassembly

/-!
# Scripted collaborators

Collaborators that answer from lists: the first call gets the first answer, the next call the next one,
and the last answer is given again and again. Where nothing is listed the answer is empty. They also keep
a record of the calls.

- `NativeAnswer`, `Script` : the answers for one installed package
- `CallRecord` : the calls so far
- `Script.collaborators` : the collaborators for several packages
- `Script.ofJson?` : a script from a document
- `JobSpec`, `Run` : what is to be done with the scripted packages, given by their places in a list
-/

namespace Bridgework
namespace Testbed

inductive NativeAnswer where
  | given (result : Except Error NativeGraph)
  /-- The output of a disassembler. -/
  | listing (text : String)

/-- The answers for one installed package. -/
structure Script where
  package : Package
  files : List String
  interpreted : List (Except Error InterpretedGraph)
  bridges : List (Except Error BridgeReport)
  /-- By the paths of the libraries. -/
  native : SortedMap String (List NativeAnswer)

structure CallRecord where
  /-- How often each call was made. -/
  counts : SortedMap String Nat
  /-- The calls with their details, the last one first. -/
  calls : List String

namespace CallRecord

def empty : CallRecord := ⟨.empty, []⟩

def add (r : CallRecord) (name detail : String) : CallRecord :=
  ⟨r.counts.alter name fun n => n.getD 0 + 1, (name ++ detail) :: r.calls⟩

def count (r : CallRecord) (name : String) : Nat := (r.counts.get? name).getD 0

end CallRecord

/-- The answer to the call after `n` others. -/
def answerAt {α : Type} (answers : List α) (n : Nat) : Option α :=
  match answers[n]? with
  | some a => some a
  | none => answers.getLast?

def NativeAnswer.graph (library : Library) : NativeAnswer → Except Error NativeGraph
  | .given r => r
  | .listing text => NativeGraph.ofDisassembly library text

namespace Script

/-! ## Answering -/

def at? (scripts : List (String × Script)) (root : String) : Option Script :=
  (scripts.find? fun s => s.1 == root).map Prod.snd

def reply {α : Type} (answers : List α) (name detail : String) (r : CallRecord) : Option α × CallRecord :=
  (answerAt answers (r.count name), r.add name detail)

def orEmpty {α : Type} (empty : α) : Option (Except Error α) → Except Error α
  | some r => r
  | none => .ok empty

def collaborators (scripts : List (String × Script)) : Collaborators CallRecord where
  nativeGraph p l timeout r :=
    let answers := ((at? scripts p.root).bind fun s => s.native.get? l.path).getD []
    let detail := match timeout with
      | some seconds => " timeout=" ++ toString seconds
      | none => ""
    let (a, r) := reply answers ("native " ++ l.display ++ " " ++ p.root ++ "/" ++ l.path) detail r
    (orEmpty (.empty l) (a.map (NativeAnswer.graph l)), r)
  bridgeReport p settings r :=
    let answers := ((at? scripts p.root).map (·.bridges)).getD []
    let (a, r) := reply answers ("bridges " ++ p.package.display ++ " " ++ p.root)
      (" depth=" ++ toString settings.maxDepth) r
    (orEmpty (.empty p.package) a, r)
  interpretedGraph p r :=
    let answers := ((at? scripts p.root).map (·.interpreted)).getD []
    let (a, r) := reply answers ("interpreted " ++ p.package.display ++ " " ++ p.root) "" r
    (orEmpty (.empty p.package) a, r)

/-! ## Scripts as documents -/

def resultOfJson? {α : Type} (f : Json → Option α) : Json → Option (Except Error α)
  | .obj [(word, detail)] =>
    match word.value with
    | some "ok" => (f detail).map .ok
    | some "err" => (Error.ofJson? detail).map .error
    | _ => none
  | _ => none

def nativeOfJson? (j : Json) : Option NativeAnswer :=
  match j with
  | .obj [(⟨some "analyzer", _⟩, detail)] => detail.asString.map .listing
  | j => (resultOfJson? NativeGraph.ofJson? j).map .given

def ofJson? (j : Json) : Option Script := do
  let r ← j.record ["id", "files", "interpreted", "bridges", "native"]
  return {
    package := ← r.required "id" Package.ofJson?
    files := ← r.withDefault "files" [] (Json.asList Json.asString)
    interpreted := ← r.withDefault "interpreted" [] (Json.asList (resultOfJson? InterpretedGraph.ofJson?))
    bridges := ← r.withDefault "bridges" [] (Json.asList (resultOfJson? BridgeReport.ofJson?))
    native := ← r.withDefault "native" .empty (Json.asMap (Json.asList nativeOfJson?)) }

def installed (s : Script) (root : String) : InstalledPackage :=
  ⟨s.package, root, .ofPaths s.files []⟩

def placed (start : Nat) : List Script → List (String × Script)
  | [] => []
  | s :: rest => ("p" ++ toString start, s) :: placed (start + 1) rest

end Script

/-! ## Runs -/

/-- A job whose packages are given by their places in a list. -/
structure JobSpec where
  client : Nat
  dependencies : List Nat
  /-- What the client is taken for, if not for itself. -/
  clientAs : Option Package

namespace JobSpec

def ofJson? (j : Json) : Option JobSpec := do
  let r ← j.record ["client", "deps", "client_as"]
  return ⟨← r.required "client" Json.asNat, ← r.withDefault "deps" [] (Json.asList Json.asNat),
    ← r.nullable "client_as" Package.ofJson?⟩

def job? (s : JobSpec) (packages : List InstalledPackage) : Option Job := do
  let client ← packages[s.client]?
  let dependencies ← s.dependencies.mapM fun i => packages[i]?
  return ⟨{ client with package := s.clientAs.getD client.package }, dependencies⟩

end JobSpec

inductive Run where
  | analyze (job : JobSpec)
  | batch (jobs : List JobSpec)
  | invalidate (key : Memo.Key)

def Run.ofJson? : Json → Option Run
  | .obj [(word, detail)] =>
    match word.value with
    | some "analyze" => (JobSpec.ofJson? detail).map .analyze
    | some "batch" => (Json.asList JobSpec.ofJson? detail).map .batch
    | some "invalidate" => (Memo.Key.ofJson? detail).map .invalidate
    | _ => none
  | _ => none

end Testbed
end Bridgework
