import Bridgework.Proofs.Scan.Tally

/-!
# Scans without libraries

A package without shared objects has no bridges, whatever its objects refer to. Objects that enter native code
can be reached all the same, as attributes that come from elsewhere. They are counted, each once, and all of
them are counted as not resolved.

- `Scan.Walk.Distinct` : what was found was met, and is there once
- `Scan.bridgesOf_no_library` : without libraries nothing lands anywhere
- `Scan.recover_no_library` : what is left of a report
- `Scan.recover_no_library_foreign` : the count of objects that enter native code is not always zero
-/

namespace Bridgework
namespace Scan

/-! ## What is found is found once -/

namespace Walk

/-- An object is found when it is met, and it is met once. -/
structure Distinct (w : Walk) : Prop where
  nodup : (w.found.map Prod.fst).Nodup
  met : ∀ p ∈ w.found, p.1 ∈ w.seen

end Walk

/-- The whole scan finds no object twice. -/
theorem distinct_enterAll (g : Ground) (entries : List String) : (enterAll g entries).walk.Distinct where
  nodup := (tallied_enterAll g entries).nodup_found
  met := by
    intro p hp
    have hfound : p.1 ∈ (examined g entries).filter fun x => (g.native? x).isSome :=
      (tallied_enterAll g entries).found ▸ List.mem_map_of_mem hp
    exact (tallied_enterAll g entries).met (List.mem_filter.1 hfound).1

/-! ## Without libraries -/

theorem resolve_no_library (mode : MatchMode) (a : UInt64) : (Resolver.of [] mode).resolve a = .outside := by
  simp [Resolver.of, Resolver.resolve]

theorem resolveName?_no_library (mode : MatchMode) (name : String) :
    (Resolver.of [] mode).resolveName? name = none := by
  simp only [Resolver.of, Resolver.resolveName?, List.mergeSort_nil, List.filter_nil, List.map_nil]
  rfl

/-- Without libraries nothing lands anywhere. -/
theorem bridgesOf_no_library (mode : MatchMode) (f : Found) : bridgesOf (.of [] mode) f = [] := by
  apply List.eq_nil_iff_forall_not_mem.2
  intro l hl
  rcases mem_bridgesOf_iff.1 hl with ⟨library, symbol, ⟨a, _, hresolve⟩ | ⟨_, _, hname⟩, _⟩
  · rw [resolve_no_library] at hresolve
    cases hresolve
  · rw [resolveName?_no_library] at hname
    cases hname

/-- No entry module is in a file whose name is that of a shared object. -/
def Ground.NoSharedObject (g : Ground) (entries : List String) : Prop :=
  ∀ name ∈ entries, ∀ m path, g.Entry name m path → Install.isSharedObject (Path.fileName path) = false

/-- Without shared objects there are no bridges of imports. -/
theorem importLandings_eq_nil {g : Ground} {entries : List String} (h : g.NoSharedObject entries) :
    importLandings g (enterAll g entries).paths = [] := by
  unfold importLandings
  split
  next =>
    rw [List.filterMap_eq_nil_iff]
    intro ⟨name, path⟩ hmem
    rcases (sound_enterAll g entries).2 name path hmem with ⟨hname, m, hentry⟩
    exact if_neg (by simp [h name hname m path hentry])
  next => rfl

/-! ## Main result -/

/-- Without libraries and without a shared object among the entry modules, a report has no bridges, no
libraries and no modules. The objects that enter native code and can be reached from the entry modules are
counted as such and as not resolved; so both counts are zero if there is none. -/
theorem recover_no_library (g : Ground) (mode : MatchMode) (package : Package) (entries : List String)
    (hentries : g.NoSharedObject entries) :
    let report := recover g (.of [] mode) package entries
    report.count = 0 ∧ report.bridges = [] ∧ report.libraries = [] ∧ report.modules = [] ∧
      report.unresolvedForeign = report.foreignObjects ∧
      (∃ ids : List ObjectId, ids.Nodup ∧ ids.length = report.foreignObjects ∧
        ∀ x ∈ ids, (∃ e, g.native? x = some e) ∧ ∃ name, g.Placed entries x name) ∧
      ((∀ x name, g.Placed entries x name → g.native? x = none) → report.foreignObjects = 0) := by
  rw [recover_eq_collect]
  intro report
  obtain ⟨hsound, _⟩ := sound_enterAll g entries
  let found := (enterAll g entries).walk.found
  -- Without libraries nothing leads anywhere, and without shared objects no import does.
  have hlandings : (found.map Prod.snd).flatMap (bridgesOf (.of [] mode)) ++
      importLandings g (enterAll g entries).paths = [] := by
    rw [importLandings_eq_nil hentries, List.append_nil, List.flatMap_eq_nil_iff]
    intro f _
    exact bridgesOf_no_library mode f
  have hlanded : (found.map Prod.snd).filter (fun f => !(bridgesOf (.of [] mode) f).isEmpty) = [] := by
    rw [List.filter_eq_nil_iff]
    intro f _
    simp [bridgesOf_no_library]
  have hforeign : report.foreignObjects = found.length := List.length_map _
  have hbridges : report.bridges = [] := by
    simp only [report, collect]
    rw [hlandings]
    rfl
  refine ⟨?_, hbridges, ?_, ?_, ?_, ⟨found.map Prod.fst, ?_⟩, ?_⟩
  · have hcount : report.count = report.bridges.length := rfl
    rw [hcount, hbridges]
    rfl
  · simp only [report, collect]
    rw [hlandings]
    rfl
  · simp only [report, collect]
    rw [hlanded]
    rfl
  · simp only [report, collect]
    rw [hlanded]
    rfl
  -- Each object is found once, under a name of its own place.
  · refine ⟨(distinct_enterAll g entries).nodup, by rw [hforeign, List.length_map], ?_⟩
    intro x hx
    rcases List.mem_map.1 hx with ⟨p, hp, rfl⟩
    exact ⟨⟨p.2.entry, hsound.entries p hp⟩, p.2.name, hsound.named p hp⟩
  -- Nothing enters native code, so that nothing is found.
  · intro hnone
    rw [hforeign, List.length_eq_zero_iff, List.eq_nil_iff_forall_not_mem]
    intro p hp
    have hentry := hsound.entries p hp
    rw [hnone p.1 p.2.name (hsound.named p hp)] at hentry
    cases hentry

/-! ## A package that refers to native code

The only module of the package is interpreted, and one of its attributes is a function of the runtime. -/

def reexporting : Snapshot :=
  ((Snapshot.empty.addModule "pure" 1 (.module (some "/site/pure/__init__.py"))).insert 2
    (.native .builtinFunction [4096] none)).setAttribute 1 "sqrt" 2

def reexportingGround : Ground := ⟨reexporting.model, "/site", ⟨3, 10, 8, .exact, true⟩⟩

theorem noSharedObject_reexporting : reexportingGround.NoSharedObject ["pure"] := by
  intro name hname m path hentry
  obtain rfl := List.mem_singleton.1 hname
  obtain rfl : 1 = m := Except.ok.inj hentry.imported
  rcases hentry.below with ⟨file, hshape, hbelow⟩
  obtain rfl : "/site/pure/__init__.py" = file := by
    have hmodule : Shape.module (some "/site/pure/__init__.py") = .module (some file) := Except.ok.inj hshape
    injection hmodule with hfile
    exact Option.some.inj hfile
  have hpath : Path.below? "/site/pure/__init__.py" "/site" = some "pure/__init__.py" := by decide +kernel
  obtain rfl : "pure/__init__.py" = path := Option.some.inj (hpath.symm.trans hbelow)
  decide +kernel

theorem recover_no_library_reexporting :
    reexportingGround.NoSharedObject ["pure"] ∧
      (recover reexportingGround (.of [] .exact) ⟨"pure", "1.0"⟩ ["pure"]).bridges = [] ∧
      (recover reexportingGround (.of [] .exact) ⟨"pure", "1.0"⟩ ["pure"]).unresolvedForeign =
        (recover reexportingGround (.of [] .exact) ⟨"pure", "1.0"⟩ ["pure"]).foreignObjects := by
  obtain ⟨_, hbridges, _, _, hunresolved, _⟩ :=
    recover_no_library reexportingGround .exact ⟨"pure", "1.0"⟩ ["pure"] noSharedObject_reexporting
  exact ⟨noSharedObject_reexporting, hbridges, hunresolved⟩

/-- The function of the runtime counts as an object that enters native code. -/
theorem recover_no_library_foreign :
    reexportingGround.NoSharedObject ["pure"] ∧
      (recover reexportingGround (.of [] .exact) ⟨"pure", "1.0"⟩ ["pure"]).foreignObjects = 1 :=
  ⟨noSharedObject_reexporting, by decide +kernel⟩

end Scan
end Bridgework
