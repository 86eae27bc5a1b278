import Bridgework.Json.Decode

/-!
# Errors

Everything that an operation can fail with, and the wording of each.

- `Error` : the causes
- `Error.message` : the text of a cause
- `Error.kind`, `Error.exceptionName` : the word for a cause, and the exception that an interpreter sees
- `Error.ofJson?` : a cause from a document
-/

namespace Bridgework

inductive Error where
  /-- A setting has a value that cannot be used. -/
  | config (text : String)
  /-- A call graph refers to something that it does not declare. -/
  | graphInconsistency (source detail : String)
  /-- A cached computation failed. -/
  | computationFailed (key reason : String)
  /-- A time limit has passed. -/
  | timeout (what : String) (seconds : Nat)
  /-- An analyser of native code failed. -/
  | analyzer (text : String)
  /-- Something asked for does not exist. -/
  | notFound (text : String)
  /-- An object could not be inspected. -/
  | introspection (text : String)
  /-- A file or directory could not be used. -/
  | io (text : String)
  /-- The store of cached results could not be used. -/
  | database (text : String)
  /-- A JSON text is malformed or of another form. -/
  | json (text : String)
  /-- A serialized graph has an edge between indices of which one is not declared. -/
  | danglingEdge (source target : Nat)
  /-- A TOML text is malformed or of another form. -/
  | toml (text : String)
  deriving DecidableEq, Repr

namespace Error

def message : Error → String
  | .config text => "Config error: " ++ text
  | .graphInconsistency source detail => "Graph inconsistency in " ++ source ++ ": " ++ detail
  | .computationFailed key reason => "Computation failed for " ++ key ++ ": " ++ reason
  | .timeout what seconds => "Timed out after " ++ toString seconds ++ "s: " ++ what
  | .analyzer text => "Analyzer error: " ++ text
  | .notFound text => "Not found: " ++ text
  | .introspection text => "Introspection error: " ++ text
  | .io text => "IO error: " ++ text
  | .database text => "SQLite error: " ++ text
  | .json text => "JSON error: " ++ text
  | .danglingEdge source target =>
    "JSON error: Graph inconsistency in serialized graph: edge [" ++ toString source ++ ", " ++
      toString target ++ "] references an undeclared node"
  | .toml text => "TOML error: " ++ text

def kind : Error → String
  | .config _ => "Config"
  | .graphInconsistency _ _ => "GraphInconsistency"
  | .computationFailed _ _ => "ComputationFailed"
  | .timeout _ _ => "Timeout"
  | .analyzer _ => "Analyzer"
  | .notFound _ => "NotFound"
  | .introspection _ => "Introspection"
  | .io _ => "Io"
  | .database _ => "Sqlite"
  | .json _ => "Json"
  | .danglingEdge _ _ => "Json"
  | .toml _ => "Toml"

/-- The class of the exception that a caller in the interpreter sees. -/
def exceptionName : Error → String
  | .io _ => "OSError"
  | .timeout _ _ => "TimeoutError"
  | .database _ => "RuntimeError"
  | .computationFailed _ _ => "RuntimeError"
  | .analyzer _ => "RuntimeError"
  | .introspection _ => "RuntimeError"
  | _ => "ValueError"

/-- A document that does not have the form that is due. -/
def unexpectedForm : Error := .json "the document does not have the expected form"

/-- Reads a cause, written as its word with its details. -/
def ofJson? : Json → Option Error
  | .obj [(word, detail)] =>
    match word.value with
    | some "Config" => detail.asString.map .config
    | some "Analyzer" => detail.asString.map .analyzer
    | some "NotFound" => detail.asString.map .notFound
    | some "Introspection" => detail.asString.map .introspection
    | some "Io" => detail.asString.map .io
    -- Errors with more than a text hold a record.
    | some "GraphInconsistency" => do
      let r ← detail.record ["source_name", "detail"]
      return .graphInconsistency (← r.required "source_name" Json.asString)
        (← r.required "detail" Json.asString)
    | some "ComputationFailed" => do
      let r ← detail.record ["key", "message"]
      return .computationFailed (← r.required "key" Json.asString) (← r.required "message" Json.asString)
    | some "Timeout" => do
      let r ← detail.record ["what", "seconds"]
      return .timeout (← r.required "what" Json.asString) (← r.required "seconds" Json.asNat)
    | _ => none
  | _ => none

end Error
end Bridgework
