import Bridgework.Proofs.Toml.Document
import Bridgework.Settings.Sources

/-!
# Two ways to the same settings

The path of the cache, the lease, the number of workers, the time limit and the match mode can be set in a
file or by variables. Both ways give the same within bounds, except for a time limit of zero: a variable
takes the limit away, a file sets a limit that has passed at once.

- `Choice` : values for the five settings
- `Choice.SetBy`, `Choice.SetIn` : files and environments that set them
- `Choice.document`, `Choice.environment` : a file and an environment for each choice
- `Choice.routes_agree_iff` : the two ways agree exactly if the time limit is not zero
-/

namespace Bridgework

/-- Values for the settings that a file and the environment can set. -/
structure Choice where
  path : String
  lease : Nat
  workers : Nat
  timeout : Nat
  mode : MatchMode
  deriving DecidableEq, Repr

/-- The value of a field in a section of a document. -/
def Toml.Members.setting? (m : Toml.Members) (name : String) (fields : List String) (key : String) : Option Toml :=
  (m.get? name).bind fun v => (v.fields fields).bind fun inner => inner.get? key

theorem Toml.Members.field_of_get? {α : Type} {m : Toml.Members} {key : String} {w : Toml} (h : m.get? key = some w)
    (d : α) (f : Toml → Option α) : m.field key d f = f w := by
  rw [field, h]

theorem Toml.asNat?_integer (n : Nat) : (Toml.integer n).asNat? = some n := by
  simp [asNat?]

namespace Choice

open Settings

/-! ## Files -/

/-- The document gives the five settings these values. -/
structure Assigned (v : Choice) (m : Toml.Members) : Prop where
  path : m.setting? "cache" ["path", "lease_secs", "poll_interval_ms"] "path" = some (.text v.path)
  lease : m.setting? "cache" ["path", "lease_secs", "poll_interval_ms"] "lease_secs" = some (.integer v.lease)
  mode : ∃ w, m.setting? "scan"
    ["max_depth", "max_objects", "max_unwrap_depth", "match_mode", "emit_import_bridges"] "match_mode" = some w ∧
    w.variant? = some v.mode.name
  workers : m.setting? "batch" ["workers", "native_timeout_secs"] "workers" = some (.integer v.workers)
  timeout : m.setting? "batch" ["workers", "native_timeout_secs"] "native_timeout_secs" = some (.integer v.timeout)

/-- The text is a file of settings that gives the five settings these values. -/
def SetBy (host : Host) (v : Choice) (text : String) : Prop :=
  ∃ m, Toml.parse? text = some m ∧ (ofToml? host m).isSome ∧ v.Assigned m

/-- A section with a field that is set is read from the value that holds the field. -/
theorem exists_section {α : Type} {m : Toml.Members} {name key : String} {names : List String} {d a : α}
    {f : Toml → Option α} {w : Toml} (hfield : m.field name d f = some a)
    (hset : m.setting? name names key = some w) :
    ∃ u inner, f u = some a ∧ u.fields names = some inner ∧ inner.get? key = some w := by
  obtain ⟨u, hu, hset⟩ := Option.bind_eq_some_iff.1 hset
  obtain ⟨inner, hinner, hkey⟩ := Option.bind_eq_some_iff.1 hset
  rw [Toml.Members.field_of_get? hu] at hfield
  exact ⟨u, inner, hfield, hinner, hkey⟩

namespace Assigned

variable {v : Choice} {m : Toml.Members} {host : Host}

/-- The section for the cache gives its path and its lease. -/
theorem cache (h : v.Assigned m) {c d : CacheSettings} (hc : m.field "cache" d (cacheOfToml? host) = some c) :
    c.path = v.path ∧ c.leaseSeconds = v.lease := by
  constructor
  · obtain ⟨u, inner, hu, hinner, hpath⟩ := exists_section hc h.path
    simp only [cacheOfToml?, hinner, Toml.Members.field_of_get? hpath, Toml.asText?, Option.bind_eq_bind,
      Option.bind_some, Option.bind_eq_some_iff, Option.pure_def, Option.some.injEq] at hu
    obtain ⟨_, _, _, _, rfl⟩ := hu
    rfl
  · obtain ⟨u, inner, hu, hinner, hlease⟩ := exists_section hc h.lease
    simp only [cacheOfToml?, hinner, Toml.Members.field_of_get? hlease, Toml.asNat?_integer, Option.bind_eq_bind,
      Option.bind_some, Option.bind_eq_some_iff, Option.pure_def, Option.some.injEq] at hu
    obtain ⟨_, _, _, _, rfl⟩ := hu
    rfl

/-- The section for scans gives the match mode. -/
theorem scan (h : v.Assigned m) {c d : ScanSettings} (hc : m.field "scan" d scanOfToml? = some c) :
    c.matchMode = v.mode := by
  obtain ⟨w, hw, hvariant⟩ := h.mode
  obtain ⟨u, inner, hu, hinner, hmode⟩ := exists_section hc hw
  simp only [scanOfToml?, hinner, Toml.Members.field_of_get? hmode, hvariant, MatchMode.ofName?_name,
    Option.bind_eq_bind, Option.bind_some, Option.bind_eq_some_iff, Option.pure_def, Option.some.injEq] at hu
  obtain ⟨_, _, _, _, _, _, _, _, rfl⟩ := hu
  rfl

/-- The section for batches gives the workers and the time limit. -/
theorem batch (h : v.Assigned m) {c d : BatchSettings} (hc : m.field "batch" d (batchOfToml? host) = some c) :
    c.workers = v.workers ∧ c.nativeTimeout = some v.timeout := by
  constructor
  · obtain ⟨u, inner, hu, hinner, hworkers⟩ := exists_section hc h.workers
    simp only [batchOfToml?, hinner, Toml.Members.field_of_get? hworkers, Toml.asNat?_integer, Option.bind_eq_bind,
      Option.bind_some, Option.bind_eq_some_iff, Option.pure_def, Option.some.injEq] at hu
    obtain ⟨_, _, rfl⟩ := hu
    rfl
  · obtain ⟨u, inner, hu, hinner, htimeout⟩ := exists_section hc h.timeout
    simp only [batchOfToml?, hinner, Toml.Members.field_of_get? htimeout, Toml.asNat?_integer, Option.map_some,
      Option.bind_eq_bind, Option.bind_some, Option.bind_eq_some_iff, Option.pure_def, Option.some.injEq] at hu
    obtain ⟨_, _, rfl⟩ := hu
    rfl

end Assigned

/-- What a choice comes to in settings within bounds, the time limit aside. -/
structure Holds (v : Choice) (host : Host) (s : Settings) : Prop where
  path : s.cache.path = Path.expandHome host.home v.path
  lease : s.cache.leaseMillis = max v.lease Limits.minLeaseSeconds * 1000
  workers : s.batch.workers = max v.workers 1
  mode : s.scan.matchMode = v.mode

section

variable {host : Host} {v : Choice}

/-- A file is read, and its time limit is set as it is written. -/
theorem SetBy.parse_eq {text : String} (h : v.SetBy host text) :
    ∃ s, parse host text = .ok s ∧ v.Holds host s.clamped ∧ s.clamped.batch.nativeTimeout = some v.timeout := by
  obtain ⟨m, hparse, hread, hv⟩ := h
  obtain ⟨s, hs⟩ := Option.isSome_iff_exists.1 hread
  refine ⟨{ s with cache.path := Path.expandHome host.home s.cache.path }, ?_, ?_⟩
  · rw [parse, hparse, Option.bind_some, hs]
  · simp only [ofToml?, Option.bind_eq_bind, Option.bind_eq_some_iff, Option.pure_def, Option.some.injEq] at hs
    -- Each section was read on its own, and nothing of the chains is chosen.
    obtain ⟨cache, hcache, scan, hscan, _, _, batch, hbatch, rfl⟩ := hs
    obtain ⟨hpath, hlease⟩ := hv.cache hcache
    have hmode : scan.matchMode = v.mode := hv.scan hscan
    obtain ⟨hworkers, htimeout⟩ := hv.batch hbatch
    refine ⟨⟨?_, ?_, ?_, hmode⟩, htimeout⟩
    · exact congrArg (Path.expandHome host.home) hpath
    · exact congrArg (fun n => max n Limits.minLeaseSeconds * 1000) hlease
    · exact congrArg (max · 1) hworkers

/-! ## Environments -/

/-- The variables give the five settings these values. -/
structure SetIn (v : Choice) (env : Environment) : Prop where
  path : ∃ t, env "XRAY_CACHE_PATH" = some t ∧ Text.trim t = v.path
  lease : ∃ t, env "XRAY_CACHE_LEASE_SECS" = some t ∧ number "XRAY_CACHE_LEASE_SECS" t = .ok v.lease
  workers : ∃ t, env "XRAY_WORKERS" = some t ∧ number "XRAY_WORKERS" t = .ok v.workers
  timeout : ∃ t, env "XRAY_NATIVE_TIMEOUT_SECS" = some t ∧ number "XRAY_NATIVE_TIMEOUT_SECS" t = .ok v.timeout
  mode : ∃ t, env "XRAY_MATCH_MODE" = some t ∧ Settings.mode t = .ok v.mode

/-- The variables are applied to any settings, and a time limit of zero is taken for none. -/
theorem SetIn.override_eq {env : Environment} (h : v.SetIn env) (s : Settings) :
    ∃ e, s.override host env = (e, none) ∧ v.Holds host e.clamped ∧
      e.clamped.batch.nativeTimeout = if v.timeout = 0 then none else some v.timeout := by
  obtain ⟨path, hpath, hv⟩ := h.path
  obtain ⟨lease, hlease, hlease'⟩ := h.lease
  obtain ⟨workers, hworkers, hworkers'⟩ := h.workers
  obtain ⟨timeout, htimeout, htimeout'⟩ := h.timeout
  obtain ⟨mode, hmode, hmode'⟩ := h.mode
  simp only [override, overrides, applyAll, hpath, hv, hlease, hlease', hworkers, hworkers', htimeout, htimeout',
    hmode, hmode', Except.map]
  exact ⟨_, rfl, ⟨rfl, rfl, rfl, rfl⟩, rfl⟩

end

/-! ## A file and an environment for each choice -/

def cacheSection (v : Choice) : Toml.Section :=
  ⟨"cache", [("path", .text v.path), ("lease_secs", .natural v.lease)]⟩

def scanSection (v : Choice) : Toml.Section := ⟨"scan", [("match_mode", .text v.mode.name)]⟩

def batchSection (v : Choice) : Toml.Section :=
  ⟨"batch", [("workers", .natural v.workers), ("native_timeout_secs", .natural v.timeout)]⟩

def document (v : Choice) : String := Toml.written [v.cacheSection, v.scanSection, v.batchSection]

/-- The choice in variables, with the texts that stand in the file. -/
def environment (v : Choice) : Environment := fun key =>
  [("XRAY_CACHE_PATH", v.path), ("XRAY_CACHE_LEASE_SECS", Nat.repr v.lease), ("XRAY_WORKERS", Nat.repr v.workers),
    ("XRAY_NATIVE_TIMEOUT_SECS", Nat.repr v.timeout), ("XRAY_MATCH_MODE", v.mode.name)].lookup key

/-- The path has no blanks at its ends, and the numbers fit into a file, which has signed words. -/
structure IsRepresentable (v : Choice) : Prop where
  path : Text.trim v.path = v.path
  lease : v.lease < 0x8000000000000000
  workers : v.workers < 0x8000000000000000
  timeout : v.timeout < 0x8000000000000000

/-- A number below `2 ^ 63` is read back from its digits. -/
theorem number_repr (key : String) {n : Nat} (hn : n < 0x8000000000000000) : number key (Nat.repr n) = .ok n := by
  have htrim : (Text.trim (Nat.repr n)).toList = Nat.toDigits 10 n := by
    rw [Text.trim, Nat.repr_eq_ofList_toDigits, String.toList_ofList, String.toList_ofList,
      (Text.isTrimmed_toDigits n).trimChars_eq]
  have hread : Text.nat64? (Nat.toDigits 10 n) = some n := by
    have hword : n < UInt64.size := Nat.lt_trans hn (by decide)
    have hdecimal := Text.natOfDecimal?_toDigits n
    obtain ⟨c, s, hc, hcons⟩ := Text.exists_digit_cons n
    have hplus : c ≠ '+' := Text.ne_of_class hc (by decide)
    rw [hcons] at hdecimal ⊢
    simp [Text.nat64?, hplus, hdecimal, hword]
  rw [number, htrim, hread]

theorem mode_name (m : MatchMode) : Settings.mode m.name = .ok m := by
  cases m with
  | exact => decide +kernel
  | nearest => decide +kernel

theorem isPlain_cacheSection {v : Choice} (hv : v.IsRepresentable) : v.cacheSection.IsPlain where
  name := (by decide : Toml.IsBareKey "cache")
  keys := (by decide : ∀ key ∈ ["path", "lease_secs"], Toml.IsBareKey key)
  nodup := (by decide : ["path", "lease_secs"].Nodup)
  fits := by simp [cacheSection, Toml.Scalar.Fits, hv.lease]

theorem isPlain_scanSection (v : Choice) : v.scanSection.IsPlain where
  name := (by decide : Toml.IsBareKey "scan")
  keys := (by decide : ∀ key ∈ ["match_mode"], Toml.IsBareKey key)
  nodup := (by decide : ["match_mode"].Nodup)
  fits := by simp [scanSection, Toml.Scalar.Fits]

theorem isPlain_batchSection {v : Choice} (hv : v.IsRepresentable) : v.batchSection.IsPlain where
  name := (by decide : Toml.IsBareKey "batch")
  keys := (by decide : ∀ key ∈ ["workers", "native_timeout_secs"], Toml.IsBareKey key)
  nodup := (by decide : ["workers", "native_timeout_secs"].Nodup)
  fits := by simp [batchSection, Toml.Scalar.Fits, hv.workers, hv.timeout]

/-- The file of a choice gives the choice. -/
theorem setBy_document (host : Host) {v : Choice} (hv : v.IsRepresentable) : v.SetBy host v.document := by
  have hplain : ∀ s ∈ [v.cacheSection, v.scanSection, v.batchSection], s.IsPlain := by
    simp only [List.mem_cons, List.not_mem_nil, or_false]
    rintro s (rfl | rfl | rfl)
    · exact isPlain_cacheSection hv
    · exact isPlain_scanSection v
    · exact isPlain_batchSection hv
  have hnames : ["cache", "scan", "batch"].Nodup := by decide
  refine ⟨_, Toml.parse?_written hplain hnames, ?_, ⟨rfl, rfl, ⟨_, rfl, rfl⟩, rfl, rfl⟩⟩
  -- The reader of settings computes on the members of the document once the mode has a name.
  obtain ⟨_, _, _, _, mode⟩ := v
  cases mode with
  | exact => rfl
  | nearest => rfl

/-- The variables of a choice give the choice. -/
theorem setIn_environment {v : Choice} (hv : v.IsRepresentable) : v.SetIn v.environment where
  path := ⟨v.path, rfl, hv.path⟩
  lease := ⟨Nat.repr v.lease, rfl, number_repr _ hv.lease⟩
  workers := ⟨Nat.repr v.workers, rfl, number_repr _ hv.workers⟩
  timeout := ⟨Nat.repr v.timeout, rfl, number_repr _ hv.timeout⟩
  mode := ⟨v.mode.name, rfl, mode_name v.mode⟩

/-! ## Agreement -/

/-- Settings with the same cache path, lease, workers, time limit and match mode. -/
structure Agree (s e : Settings) : Prop where
  path : s.cache.path = e.cache.path
  lease : s.cache.leaseMillis = e.cache.leaseMillis
  workers : s.batch.workers = e.batch.workers
  timeout : s.batch.nativeTimeout = e.batch.nativeTimeout
  mode : s.scan.matchMode = e.scan.matchMode

/-- Where both routes hold a choice, they agree exactly if they agree on the time limit. -/
theorem Holds.agree_iff {v : Choice} {host : Host} {s e : Settings} (hs : v.Holds host s) (he : v.Holds host e) :
    Agree s e ↔ s.batch.nativeTimeout = e.batch.nativeTimeout where
  mp h := h.timeout
  mpr h :=
    { path := hs.path.trans he.path.symm
      lease := hs.lease.trans he.lease.symm
      workers := hs.workers.trans he.workers.symm
      timeout := h
      mode := hs.mode.trans he.mode.symm }

/-- Every choice that both can represent stands in a file and in an environment. Every file and every
environment that set it are accepted and come to what is chosen, within bounds; and they come to the same
exactly if the time limit is not zero. -/
theorem routes_agree_iff (host : Host) (v : Choice) (hv : v.IsRepresentable) :
    (v.SetBy host v.document ∧ v.SetIn v.environment) ∧
    ∀ text env, v.SetBy host text → v.SetIn env →
      ∃ s e, parse host text = .ok s ∧ (default host).override host env = (e, none) ∧
        v.Holds host s.clamped ∧ v.Holds host e.clamped ∧ (Agree s.clamped e.clamped ↔ v.timeout ≠ 0) := by
  refine ⟨⟨setBy_document host hv, setIn_environment hv⟩, fun text env hfile henv => ?_⟩
  obtain ⟨s, hparse, hs, hlimit⟩ := hfile.parse_eq
  obtain ⟨e, hoverride, he, hlimit'⟩ := henv.override_eq (default host)
  refine ⟨s, e, hparse, hoverride, hs, he, ?_⟩
  -- All but the time limits agree as both sides hold the choice.
  rw [hs.agree_iff he, hlimit, hlimit']
  by_cases hzero : v.timeout = 0 <;> simp [hzero]

/-- A choice at the bounds: the lease and the workers are raised, and the time limit is the greatest. -/
def patient : Choice := ⟨"~/\"cache\".db", 0, 0, 0x7fffffffffffffff, .nearest⟩

theorem isRepresentable_patient : patient.IsRepresentable :=
  ⟨by decide, by decide, by decide, by decide⟩

theorem routes_agree_iff_patient :
    patient.IsRepresentable ∧
    ∃ s e, parse ⟨"/home/u", 8⟩ patient.document = .ok s ∧
      (default ⟨"/home/u", 8⟩).override ⟨"/home/u", 8⟩ patient.environment = (e, none) ∧ Agree s.clamped e.clamped := by
  refine ⟨isRepresentable_patient, ?_⟩
  obtain ⟨⟨hfile, henv⟩, hroutes⟩ := routes_agree_iff ⟨"/home/u", 8⟩ patient isRepresentable_patient
  obtain ⟨s, e, hparse, hoverride, _, _, hagree⟩ := hroutes _ _ hfile henv
  exact ⟨s, e, hparse, hoverride, hagree.2 (by decide)⟩

/-- A choice without a time limit. -/
def unlimited : Choice := ⟨"/var/cache.db", 60, 4, 0, .exact⟩

theorem document_unlimited : unlimited.document =
    "[cache]\npath = \"/var/cache.db\"\nlease_secs = 60\n" ++ "[scan]\nmatch_mode = \"exact\"\n" ++
      "[batch]\nworkers = 4\nnative_timeout_secs = 0\n" := by
  decide +kernel

theorem isRepresentable_unlimited : unlimited.IsRepresentable :=
  ⟨by decide, by decide, by decide, by decide⟩

/-- A time limit of zero is a limit in a file and none in a variable. -/
theorem zero_limit_divides :
    unlimited.environment "XRAY_NATIVE_TIMEOUT_SECS" = some "0" ∧
    ∃ s e, parse ⟨"/home/u", 8⟩ ("[cache]\npath = \"/var/cache.db\"\nlease_secs = 60\n" ++
        "[scan]\nmatch_mode = \"exact\"\n" ++ "[batch]\nworkers = 4\nnative_timeout_secs = 0\n") = .ok s ∧
      (default ⟨"/home/u", 8⟩).override ⟨"/home/u", 8⟩ unlimited.environment = (e, none) ∧
      s.clamped.batch.nativeTimeout = some 0 ∧ e.clamped.batch.nativeTimeout = none := by
  obtain ⟨s, hparse, _, hlimit⟩ := (setBy_document ⟨"/home/u", 8⟩ isRepresentable_unlimited).parse_eq
  obtain ⟨e, hoverride, _, hlimit'⟩ :=
    (setIn_environment isRepresentable_unlimited).override_eq (default ⟨"/home/u", 8⟩)
  rw [document_unlimited] at hparse
  exact ⟨rfl, s, e, hparse, hoverride, hlimit, hlimit'⟩

end Choice
end Bridgework
