import Bridgework.Error
import Bridgework.Settings.Basic
import Bridgework.Text.Lowercase
import Bridgework.Text.Quoted
import Bridgework.Text.Whitespace
import Bridgework.Toml.Reader

/-!
# Where settings come from

A file gives settings in TOML, and variables of the environment override some of them.

- `Toml.fields`, `Settings.ofToml?` : the settings in a file; what a file leaves out has its default
- `Settings.parse` : the settings in a text
- `Settings.override` : the settings after the variables, up to the first that cannot be used
- `Settings.load` : both, within bounds
-/

namespace Bridgework

/-! ## Files -/

namespace Toml

/-- The declared fields that a value gives: by key, or by position. A point in time gives none. -/
def fields (names : List String) : Toml → Option Members
  | .table _ m => some m
  | .array items => some (names.zip items)
  | .tables items => some (names.zip (items.map (.table .header)))
  | .moment _ => some []
  | _ => none

def asText? : Toml → Option String
  | .text s => some s
  | _ => none

def asNat? : Toml → Option Nat
  | .integer n => if 0 ≤ n then some n.toNat else none
  | _ => none

def asBool? : Toml → Option Bool
  | .bool b => some b
  | _ => none

/-- A choice between names: the name alone, or the only key, with nothing in what it holds. -/
def variant? : Toml → Option String
  | .text s => some s
  | .table _ [(name, .table _ [])] => some name
  | .table _ [(name, .array [])] => some name
  | .table _ [(name, .tables [])] => some name
  | _ => none

/-- A field, or a default where it is left out. -/
def Members.field {α : Type} (m : Members) (name : String) (default : α) (f : Toml → Option α) :
    Option α :=
  match m.get? name with
  | some v => f v
  | none => some default

end Toml

namespace Settings

def cacheOfToml? (host : Host) (v : Toml) : Option CacheSettings := do
  let d := CacheSettings.default host
  let m ← v.fields ["path", "lease_secs", "poll_interval_ms"]
  return ⟨← m.field "path" d.path Toml.asText?, ← m.field "lease_secs" d.leaseSeconds Toml.asNat?,
    ← m.field "poll_interval_ms" d.pollMillis Toml.asNat?⟩

def scanOfToml? (v : Toml) : Option ScanSettings := do
  let d := ScanSettings.default
  let m ← v.fields
    ["max_depth", "max_objects", "max_unwrap_depth", "match_mode", "emit_import_bridges"]
  return ⟨← m.field "max_depth" d.maxDepth Toml.asNat?,
    ← m.field "max_objects" d.maxObjects Toml.asNat?,
    ← m.field "max_unwrap_depth" d.maxUnwrapDepth Toml.asNat?,
    ← m.field "match_mode" d.matchMode fun v => v.variant?.bind MatchMode.ofName?,
    ← m.field "emit_import_bridges" d.importBridges Toml.asBool?⟩

def chainsOfToml? (v : Toml) : Option ChainSettings := do
  let d := ChainSettings.default
  let m ← v.fields ["max_chains", "max_depth"]
  return ⟨← m.field "max_chains" d.maxChains Toml.asNat?, ← m.field "max_depth" d.maxDepth Toml.asNat?⟩

def batchOfToml? (host : Host) (v : Toml) : Option BatchSettings := do
  let d := BatchSettings.default host
  let m ← v.fields ["workers", "native_timeout_secs"]
  return ⟨← m.field "workers" d.workers Toml.asNat?,
    ← m.field "native_timeout_secs" d.nativeTimeout fun v => v.asNat?.map some⟩

/-- The settings that a document gives, with the path of the cache as it is written. -/
def ofToml? (host : Host) (m : Toml.Members) : Option Settings := do
  let d := default host
  return ⟨← m.field "cache" d.cache (cacheOfToml? host), ← m.field "scan" d.scan scanOfToml?,
    ← m.field "chains" d.chains chainsOfToml?, ← m.field "batch" d.batch (batchOfToml? host)⟩

/-- The settings in a text, with a tilde in the path of the cache replaced by the home directory. -/
def parse (host : Host) (text : String) : Except Error Settings :=
  match (Toml.parse? text).bind (ofToml? host) with
  | none => .error (.toml "the document is malformed or of another form")
  | some s => .ok { s with cache.path := Path.expandHome host.home s.cache.path }

/-! ## Environment -/

abbrev Environment := String → Option String

def number (key value : String) : Except Error Nat :=
  match Text.nat64? (Text.trim value).toList with
  | some n => .ok n
  | none => .error (.config (key ++ " must be a non-negative integer, got " ++ Text.quoted value))

/-- A match mode in a variable, in any case. -/
def mode (value : String) : Except Error MatchMode :=
  let word := Text.lowercase (Text.trim value)
  match MatchMode.ofName? word with
  | some m => .ok m
  | none => .error (.config ("XRAY_MATCH_MODE must be exact or nearest, got " ++ Text.quoted word))

/-- The variables in the order in which they are looked at, each with its effect. -/
def overrides (host : Host) : List (String × (Settings → String → Except Error Settings)) :=
  [("XRAY_CACHE_PATH", fun s v =>
      .ok { s with cache.path := Path.expandHome host.home (Text.trim v) }),
    ("XRAY_CACHE_LEASE_SECS", fun s v =>
      (number "XRAY_CACHE_LEASE_SECS" v).map fun n => { s with cache.leaseSeconds := n }),
    ("XRAY_WORKERS", fun s v =>
      (number "XRAY_WORKERS" v).map fun n => { s with batch.workers := n }),
    ("XRAY_NATIVE_TIMEOUT_SECS", fun s v =>
      (number "XRAY_NATIVE_TIMEOUT_SECS" v).map fun n =>
        { s with batch.nativeTimeout := if n = 0 then none else some n }),
    ("XRAY_MATCH_MODE", fun s v => (mode v).map fun m => { s with scan.matchMode := m })]

/-- Applies variables one after another, up to the first that cannot be used. -/
def applyAll (env : Environment) :
    List (String × (Settings → String → Except Error Settings)) → Settings → Settings × Option Error
  | [], s => (s, none)
  | (key, f) :: rest, s =>
    match env key with
    | none => applyAll env rest s
    | some v =>
      match f s v with
      | .ok s => applyAll env rest s
      | .error e => (s, some e)

/-- The settings after the variables, and what is wrong with the first that cannot be used. -/
def override (host : Host) (env : Environment) (s : Settings) : Settings × Option Error :=
  applyAll env (overrides host) s

/-! ## Together -/

/-- The settings of a file, if one is given, and of the variables, within bounds. -/
def load (host : Host) (file : Option String) (env : Environment) : Except Error Settings := do
  let s ← match file with
    | some text => parse host text
    | none => .ok (default host)
  match s.override host env with
  | (s, none) => return s.clamped
  | (_, some e) => throw e

end Settings
end Bridgework
