import Bridgework.Image.MatchMode
import Bridgework.Limits
import Bridgework.Path
import Bridgework.Search.Simple

/-!
# Settings

What a user can set, its defaults, and its bounds.

- `Host` : what the defaults take from the machine
- `CacheSettings`, `ScanSettings`, `ChainSettings`, `BatchSettings` : the sections
- `Settings` : all sections
- `Settings.clamped` : the settings with every limit within its bounds
- `Settings.toJson`, `Settings.ofJson?` : the documents of settings
-/

namespace Bridgework

/-- What the defaults take from the machine. -/
structure Host where
  /-- The home directory of the user. -/
  home : String
  /-- How many jobs the machine runs at a time. -/
  workers : Nat
  deriving DecidableEq, Repr

/-! ## Sections -/

/-- Where results are cached, and how claims on them are timed. -/
structure CacheSettings where
  path : String
  leaseSeconds : Nat
  pollMillis : Nat
  deriving DecidableEq, Repr

structure ScanSettings where
  maxDepth : Nat
  maxObjects : Nat
  maxUnwrapDepth : Nat
  matchMode : MatchMode
  importBridges : Bool
  deriving DecidableEq, Repr

structure ChainSettings where
  maxChains : Nat
  maxDepth : Nat
  deriving DecidableEq, Repr

structure BatchSettings where
  workers : Nat
  nativeTimeout : Option Nat
  deriving DecidableEq, Repr

structure Settings where
  cache : CacheSettings
  scan : ScanSettings
  chains : ChainSettings
  batch : BatchSettings
  deriving DecidableEq, Repr

namespace CacheSettings

def default (host : Host) : CacheSettings :=
  ⟨Path.expandHome host.home "~/.cache/xray/cache.sqlite3", Limits.defaultLeaseSeconds,
    Limits.defaultPollMillis⟩

/-- How long a claim holds without a sign of life, in milliseconds. -/
def leaseMillis (c : CacheSettings) : Nat := max c.leaseSeconds Limits.minLeaseSeconds * 1000

/-- The time between two looks at an entry, in milliseconds. -/
def pollInterval (c : CacheSettings) : Nat := max c.pollMillis Limits.minPollMillis

def toJson (c : CacheSettings) : Json :=
  .object [("path", .text c.path), ("lease_secs", .nat c.leaseSeconds),
    ("poll_interval_ms", .nat c.pollMillis)]

def ofJson? (host : Host) (j : Json) : Option CacheSettings := do
  let d := default host
  let r ← j.record ["path", "lease_secs", "poll_interval_ms"]
  return ⟨← r.withDefault "path" d.path Json.asString,
    ← r.withDefault "lease_secs" d.leaseSeconds Json.asNat,
    ← r.withDefault "poll_interval_ms" d.pollMillis Json.asNat⟩

end CacheSettings

namespace ScanSettings

def default : ScanSettings :=
  ⟨Limits.defaultScanDepth, Limits.defaultScanObjects, Limits.defaultUnwrapDepth, .exact, false⟩

def clamped (s : ScanSettings) : ScanSettings :=
  { s with
    maxDepth := Limits.clamp s.maxDepth Limits.maxScanDepth
    maxObjects := Limits.clamp s.maxObjects Limits.maxScanObjects
    maxUnwrapDepth := Limits.clamp s.maxUnwrapDepth Limits.maxUnwrapDepth }

def toJson (s : ScanSettings) : Json :=
  .object [("max_depth", .nat s.maxDepth), ("max_objects", .nat s.maxObjects),
    ("max_unwrap_depth", .nat s.maxUnwrapDepth), ("match_mode", s.matchMode.toJson),
    ("emit_import_bridges", .bool s.importBridges)]

def ofJson? (j : Json) : Option ScanSettings := do
  let d := default
  let r ← j.record
    ["max_depth", "max_objects", "max_unwrap_depth", "match_mode", "emit_import_bridges"]
  return ⟨← r.withDefault "max_depth" d.maxDepth Json.asNat,
    ← r.withDefault "max_objects" d.maxObjects Json.asNat,
    ← r.withDefault "max_unwrap_depth" d.maxUnwrapDepth Json.asNat,
    ← r.withDefault "match_mode" d.matchMode MatchMode.ofJson?,
    ← r.withDefault "emit_import_bridges" d.importBridges Json.asBool⟩

end ScanSettings

namespace ChainSettings

def default : ChainSettings := ⟨Limits.defaultChains, Limits.defaultChainDepth⟩

def clamped (c : ChainSettings) : ChainSettings :=
  ⟨Limits.clamp c.maxChains Limits.maxChains, Limits.clamp c.maxDepth Limits.maxChainDepth⟩

/-- The limits with those that a caller asks for, which are kept within their bounds. -/
def requested (c : ChainSettings) (chains depth : Option Nat) : ChainSettings :=
  ⟨(chains.map fun n => Limits.clamp n Limits.maxChains).getD c.maxChains,
    (depth.map fun n => Limits.clamp n Limits.maxChainDepth).getD c.maxDepth⟩

def limits (c : ChainSettings) : Search.Limits := ⟨c.maxChains, c.maxDepth⟩

def toJson (c : ChainSettings) : Json :=
  .object [("max_chains", .nat c.maxChains), ("max_depth", .nat c.maxDepth)]

def ofJson? (j : Json) : Option ChainSettings := do
  let d := default
  let r ← j.record ["max_chains", "max_depth"]
  return ⟨← r.withDefault "max_chains" d.maxChains Json.asNat,
    ← r.withDefault "max_depth" d.maxDepth Json.asNat⟩

end ChainSettings

namespace BatchSettings

/-- As many jobs at a time as the machine runs, without a time limit. -/
def default (host : Host) : BatchSettings := ⟨host.workers, none⟩

def clamped (b : BatchSettings) : BatchSettings := { b with workers := max b.workers 1 }

def toJson (b : BatchSettings) : Json :=
  .object [("workers", .nat b.workers), ("native_timeout_secs", .orNull Json.nat b.nativeTimeout)]

def ofJson? (host : Host) (j : Json) : Option BatchSettings := do
  let d := default host
  let r ← j.record ["workers", "native_timeout_secs"]
  return ⟨← r.withDefault "workers" d.workers Json.asNat,
    ← r.withDefault "native_timeout_secs" d.nativeTimeout (Json.asOption Json.asNat)⟩

end BatchSettings

/-! ## All settings -/

namespace Settings

def default (host : Host) : Settings := ⟨.default host, .default, .default, .default host⟩

def clamped (s : Settings) : Settings :=
  { s with scan := s.scan.clamped, chains := s.chains.clamped, batch := s.batch.clamped }

def toJson (s : Settings) : Json :=
  .object [("cache", s.cache.toJson), ("scan", s.scan.toJson), ("chains", s.chains.toJson),
    ("batch", s.batch.toJson)]

def ofJson? (host : Host) (j : Json) : Option Settings := do
  let d := default host
  let r ← j.record ["cache", "scan", "chains", "batch"]
  return ⟨← r.withDefault "cache" d.cache (CacheSettings.ofJson? host),
    ← r.withDefault "scan" d.scan ScanSettings.ofJson?,
    ← r.withDefault "chains" d.chains ChainSettings.ofJson?,
    ← r.withDefault "batch" d.batch (BatchSettings.ofJson? host)⟩

end Settings
end Bridgework
