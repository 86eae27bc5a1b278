import Bridgework.Proofs.Analysis.Attempt
import Bridgework.Proofs.Analysis.Run

/-!
# Answers and what may be kept of them

Collaborators may fail and recover, but whatever they give for a package or a library is always the same. What
analyses keep are then the texts of these answers, and under the digests of contexts the texts of unified
graphs. A stage that finds a text finds an answer, or the unified graph of an analysis with the same context.

- `Answers`, `Answers.Govern` : what collaborators give whenever they give anything
- `AnalysisRun.Gathered.inputs_eq` : what packages, missing libraries and settings determine
- `Admissible`, `Session.Sound` : what may be kept under a key
- `AnalysisRun.Finds` : the unified graphs that an analysis may be given
- `spec_nativeStage`, `spec_bridgeStage`, `spec_interpretedStage`, `spec_unifiedStage` : what stages give
- `gives_unifiedStage` : the unified graph under plain names
-/

namespace Bridgework

variable {σ α : Type}

/-! ## Answers -/

/-- A call graph for each library, a bridge report for each package and scan, and a call graph for the
interpreted code of each package. -/
structure Answers where
  native : Library → NativeGraph
  bridges : Package → ScanSettings → BridgeReport
  interpreted : Package → InterpretedGraph

/-- Whenever the collaborators give something in one of the analyses, it is the answer for its package or
library. -/
structure Answers.Govern (v : Answers) (c : Collaborators σ) (runs : List AnalysisRun) : Prop where
  -- In any state `w` of the collaborators they may as well fail.
  native : ∀ r ∈ runs, ∀ x ∈ r.job.libraries, ∀ w g,
    (c.nativeGraph x.1 x.2 r.settings.batch.nativeTimeout w).1 = .ok g → g = v.native x.2
  bridges : ∀ r ∈ runs, ∀ p ∈ r.job.packages, ∀ w b,
    (c.bridgeReport p r.settings.scan w).1 = .ok b → b = v.bridges p.package r.settings.scan
  interpreted : ∀ r ∈ runs, ∀ p ∈ r.job.packages, ∀ w g,
    (c.interpretedGraph p w).1 = .ok g → g = v.interpreted p.package
  -- A package has the same libraries wherever it is installed.
  installs : ∀ r ∈ runs, ∀ r' ∈ runs, ∀ p ∈ r.job.packages, ∀ q ∈ r'.job.packages,
    p.package = q.package → p.libraries = q.libraries

theorem Answers.Govern.mono {v : Answers} {c : Collaborators σ} {runs runs' : List AnalysisRun}
    (h : v.Govern c runs) (hsub : runs' ⊆ runs) : v.Govern c runs' where
  native r hr := h.native r (hsub hr)
  bridges r hr := h.bridges r (hsub hr)
  interpreted r hr := h.interpreted r (hsub hr)
  installs r hr r' hr' := h.installs r (hsub hr) r' (hsub hr')

/-! ## What is gathered -/

namespace AnalysisRun

/-- The key of the unified graph, if some libraries are missing. -/
def unifiedKey (r : AnalysisRun) (missing : List Library) : Memo.Key :=
  ⟨.unifiedGraph, r.job.client.package, r.context missing⟩

/-- The stage for the unified graph of some inputs, if some libraries are missing. -/
def unifiedStage (r : AnalysisRun) (missing : List Library) (i : StitchInputs) : Stage σ StitchReport :=
  .cached (r.unifiedKey missing) stitchCodec fun w => (stitch i, w)

variable {v : Answers} {runs : List AnalysisRun} {r r' : AnalysisRun} {tried tried' : List Attempt}
  {i i' : StitchInputs}

/-- Packages determine their libraries, so lists of packages do. -/
theorem libraries_eq_of_ids_eq
    (hinstalls : ∀ p ∈ r.job.packages, ∀ q ∈ r'.job.packages,
      p.package = q.package → p.libraries = q.libraries)
    (hids : r.ids = r'.ids) : r.libraries = r'.libraries := by
  rw [libraries_eq_flatMap, libraries_eq_flatMap]
  rw [ids, ids] at hids
  -- Nothing but the two lists of packages matters from here on.
  generalize r.job.packages = ps at hinstalls hids
  generalize r'.job.packages = qs at hinstalls hids
  induction ps generalizing qs with
  | nil =>
    obtain rfl : qs = [] := List.map_eq_nil_iff.1 hids.symm
    rfl
  | cons p ps ih =>
    cases qs with
    | nil => cases hids
    | cons q qs =>
      obtain ⟨hid, hrest⟩ := List.cons.inj hids
      have hlibraries := hinstalls p List.mem_cons_self q List.mem_cons_self hid
      have htail := ih qs (fun p' hp' q' hq' =>
        hinstalls p' (List.mem_cons_of_mem p hp') q' (List.mem_cons_of_mem q hq')) hrest
      rw [List.flatMap_cons, List.flatMap_cons, hlibraries, htail]

/-- What an analysis has gathered for its unified graph: answers, as they are read from the cache, for all
of its packages, and for its libraries as far as they were had. -/
structure Gathered (v : Answers) (r : AnalysisRun) (tried : List Attempt) (i : StitchInputs) : Prop where
  libraries : tried.map Prod.fst = r.libraries
  fit : Attempt.Fit (fun l => nativeCodec.readBack (v.native l)) tried
  native : i.native = Attempt.obtained tried
  bridges : List.Forall₂ (fun p b => bridgeCodec.readBack (v.bridges p r.settings.scan) = .ok b) r.ids
    i.bridges
  interpreted : List.Forall₂ (fun p g => interpretedCodec.readBack (v.interpreted p) = .ok g) r.ids
    i.interpreted

/-- Answers that are read back one by one for the same packages are the same. -/
theorem eq_of_forall₂_ok {f : Package → Except Error α} {l : List Package} {as bs : List α}
    (has : List.Forall₂ (fun p a => f p = .ok a) l as) (hbs : List.Forall₂ (fun p a => f p = .ok a) l bs) :
    as = bs := by
  have hunique : Relator.RightUnique fun p a => f p = .ok a := by
    intro p a b ha hb
    exact Except.ok.inj (ha.symm.trans hb)
  exact hunique.forall₂ has hbs

/-- Only libraries of the analysis can turn out to be missing. -/
theorem Gathered.missing_sublist (h : r.Gathered v tried i) : (Attempt.missing tried).Sublist r.libraries :=
  h.libraries ▸ Attempt.missing_sublist tried

/-- What is gathered for the same packages, with the same libraries missing and the same settings of the scan,
is the same. -/
theorem Gathered.inputs_eq (h : r.Gathered v tried i) (h' : r'.Gathered v tried' i')
    (hinstalls : ∀ p ∈ r.job.packages, ∀ q ∈ r'.job.packages,
      p.package = q.package → p.libraries = q.libraries)
    (hids : r.ids = r'.ids) (hmissing : Attempt.missing tried = Attempt.missing tried')
    (hscan : r.settings.scan = r'.settings.scan) : i = i' := by
  -- The same attempts were made, and the same of them failed: the graphs that were obtained agree.
  have hlibraries : tried.map Prod.fst = tried'.map Prod.fst := by
    rw [h.libraries, h'.libraries, libraries_eq_of_ids_eq hinstalls hids]
  have hnative : i.native = i'.native := by
    rw [h.native, h'.native]
    exact Attempt.obtained_eq_of_missing_eq h.fit h'.fit hlibraries hmissing
  -- What the packages contribute was answered in both runs, and to the same questions.
  have hbridges : i.bridges = i'.bridges := by
    have hb := h.bridges
    rw [hids, hscan] at hb
    exact eq_of_forall₂_ok hb h'.bridges
  have hinterpreted : i.interpreted = i'.interpreted := by
    have hg := h.interpreted
    rw [hids] at hg
    exact eq_of_forall₂_ok hg h'.interpreted
  cases i
  cases i'
  cases hnative
  cases hbridges
  cases hinterpreted
  rfl

/-- The unified graphs that an analysis may be given: some analysis of the same client has the same text, and the
graph is that of what it has gathered. -/
def Finds (v : Answers) (runs : List AnalysisRun) (r : AnalysisRun) (missing : List Library)
    (graph : StitchReport) : Prop :=
  ∃ r' ∈ runs, ∃ tried i report, r'.job.client.package = r.job.client.package ∧
    (r'.source (Attempt.missing tried)).text = (r.source missing).text ∧ r'.Gathered v tried i ∧
    stitch i = .ok report ∧ stitchCodec.readBack report = .ok graph

end AnalysisRun

/-! ## What may be kept -/

/-- The texts that analyses may keep under a key: those of the answers, and those of unified graphs under
the contexts in which they were stitched. -/
def Admissible (v : Answers) (runs : List AnalysisRun) (k : Memo.Key) (text : String) : Prop :=
  match k.kind with
  -- The context of a native call graph is the path of its library.
  | .nativeGraph => text = nativeCodec.render (v.native ⟨k.package, k.context⟩)
  | .bridgeReport => ∀ r ∈ runs, k.context = scanContext r.settings.scan →
      text = bridgeCodec.render (v.bridges k.package r.settings.scan)
  | .interpretedGraph => text = interpretedCodec.render (v.interpreted k.package)
  | .unifiedGraph => ∃ r ∈ runs, ∃ tried i report, k = r.unifiedKey (Attempt.missing tried) ∧
      r.Gathered v tried i ∧ stitch i = .ok report ∧ text = stitchCodec.render report

/-- Nothing is under way, and everything that is kept may be kept. -/
abbrev Session.Sound (v : Answers) (runs : List AnalysisRun) : Session σ → Prop :=
  Session.Keeps (Admissible v runs)

/-- A stage whose key admits the text of one answer only gives what is read of it. -/
theorem spec_cached {v : Answers} {runs : List AnalysisRun} {k : Memo.Key} {codec : Codec α}
    {compute : σ → Except Error α × σ} {a : α} (hadmits : ∀ text, Admissible v runs k text ↔ text = codec.render a)
    (hgiven : ∀ w b, (compute w).1 = .ok b → b = a) :
    Stage.Spec (Session.Sound v runs) (Stage.cached k codec compute)
      fun b => codec.readBack a = .ok b := by
  have hspec : Stage.Spec (Session.Sound v runs) (Stage.cached k codec compute) _ :=
    .cached fun w b hb => (hadmits _).2 (by rw [hgiven w b hb])
  intro s hs
  refine ⟨(hspec s hs).1, fun b hb => ?_⟩
  obtain ⟨text, htext, hparse⟩ := (hspec s hs).2 b hb
  rwa [(hadmits text).1 htext] at hparse

/-! ## Stages -/

section

variable {c : Collaborators σ} {v : Answers} {runs : List AnalysisRun} {r : AnalysisRun}
  {tried : List Attempt} {i : StitchInputs}
  (hv : v.Govern c runs) (hdigests : DigestsDiffer runs) (hr : r ∈ runs)

include hv hr

/-- A native call graph that is given is the answer for its library, as it is read from the cache. -/
theorem spec_nativeStage {x : InstalledPackage × Library} (hx : x ∈ r.job.libraries) :
    Stage.Spec (Session.Sound v runs) (nativeStage c r.settings x.1 x.2)
      fun g => nativeCodec.readBack (v.native x.2) = .ok g :=
  spec_cached (fun _ => .rfl) (hv.native r hr x hx)

/-- A call graph of interpreted code that is given is the answer for its package. -/
theorem spec_interpretedStage {p : InstalledPackage} (hp : p ∈ r.job.packages) :
    Stage.Spec (Session.Sound v runs) (interpretedStage c p)
      fun g => interpretedCodec.readBack (v.interpreted p.package) = .ok g :=
  spec_cached (fun _ => .rfl) (hv.interpreted r hr p hp)

omit hv in
include hdigests in
/-- Analyses that keep their bridge reports under one context have the same settings. -/
theorem admissible_bridgeReport_iff (p : Package) (text : String) :
    Admissible v runs ⟨.bridgeReport, p, scanContext r.settings.scan⟩ text ↔
      text = bridgeCodec.render (v.bridges p r.settings.scan) := by
  constructor
  · intro h
    exact h r hr rfl
  · rintro rfl r' hr' hcontext
    rw [hdigests.scan_eq hr hr' hcontext]

include hdigests

/-- A bridge report that is given is the answer for its package and the settings of the scan. -/
theorem spec_bridgeStage {p : InstalledPackage} (hp : p ∈ r.job.packages) :
    Stage.Spec (Session.Sound v runs) (bridgeStage c r.settings p)
      fun b => bridgeCodec.readBack (v.bridges p.package r.settings.scan) = .ok b :=
  spec_cached (admissible_bridgeReport_iff hdigests hr p.package) (hv.bridges r hr p hp)

omit hv

/-- Whoever has stitched it, a unified graph is found under the text of the analysis that has. -/
theorem spec_unifiedStage (hgathered : r.Gathered v tried i) :
    Stage.Spec (Session.Sound v runs) (r.unifiedStage (Attempt.missing tried) i : Stage σ StitchReport)
      (r.Finds v runs (Attempt.missing tried)) := by
  have hspec : Stage.Spec (Session.Sound v runs)
      (r.unifiedStage (Attempt.missing tried) i : Stage σ StitchReport) _ :=
    .cached fun w report hreport => ⟨r, hr, tried, i, report, rfl, hgathered, hreport, rfl⟩
  intro s hs
  refine ⟨(hspec s hs).1, fun graph hgraph => ?_⟩
  obtain ⟨_, ⟨r', hr', tried', i', report, hkey, hgathered', hstitch, rfl⟩, hread⟩ := (hspec s hs).2 graph hgraph
  have htext := hdigests.text_eq hr' hr hgathered'.missing_sublist hgathered.missing_sublist
    (congrArg Memo.Key.context hkey).symm
  exact ⟨r', hr', tried', i', report, (congrArg Memo.Key.package hkey).symm, htext, hgathered', hstitch, hread⟩

include hv

/-- Under plain names the unified graph is that of what the analysis has gathered itself. -/
theorem gives_unifiedStage (hplain : PlainNames runs) (hgathered : r.Gathered v tried i) :
    Stage.Gives (Session.Sound v runs) (r.unifiedStage (Attempt.missing tried) i : Stage σ StitchReport)
      (stitchCodec.settled (r.unifiedKey (Attempt.missing tried)) (stitch i)) := by
  refine .cached (fun _ => rfl) fun text => ?_
  constructor
  -- Some analysis `r'` has kept the text, with attempts and inputs of its own. The contexts are equal, so
  -- the same libraries were missing, and the same inputs were gathered.
  · rintro ⟨r', hr', tried', i', report, hkey, hgathered', hstitch, hrender⟩
    have hsame := hplain.same_of_context_eq hdigests hr hr' hgathered.missing_sublist hgathered'.missing_sublist
      (congrArg Memo.Key.context hkey)
    have hinputs : i = i' :=
      hgathered.inputs_eq hgathered' (hv.installs r hr r' hr') hsame.1 hsame.2.1 hsame.2.2
    exact ⟨report, hinputs ▸ hstitch, hrender⟩
  · rintro ⟨report, hstitch, hrender⟩
    exact ⟨r, hr, tried, i, report, rfl, hgathered, hstitch, hrender⟩

end

/-! ## Collaborators that never fail -/

/-- The collaborators give a bridge report and a call graph of interpreted code for every package of an analysis,
whatever state they are in. -/
structure Answers.Serve (v : Answers) (c : Collaborators σ) (r : AnalysisRun) : Prop where
  bridges : ∀ p ∈ r.job.packages, ∀ w,
    (c.bridgeReport p r.settings.scan w).1 = .ok (v.bridges p.package r.settings.scan)
  interpreted : ∀ p ∈ r.job.packages, ∀ w, (c.interpretedGraph p w).1 = .ok (v.interpreted p.package)

section

variable {c : Collaborators σ} {v : Answers} {runs : List AnalysisRun} {r : AnalysisRun} (hv : v.Serve c r)

include hv

/-- With collaborators that serve all packages, the call graph of interpreted code is given in any case. -/
theorem Answers.Serve.gives_interpreted {p : InstalledPackage} (hp : p ∈ r.job.packages) :
    Stage.Gives (Session.Sound v runs) (interpretedStage c p)
      (interpretedCodec.readBack (v.interpreted p.package)) := by
  have hgives : Stage.Gives (Session.Sound v runs) (interpretedStage c p) (interpretedCodec.settled _ _) :=
    .cached (hv.interpreted p hp) fun text => by simp [Admissible]
  exact hgives

/-- With collaborators that serve all packages, the bridge report is given in any case. A kept text can only be
that of the same scan, since digests differ. -/
theorem Answers.Serve.gives_bridges (hdigests : DigestsDiffer runs) (hr : r ∈ runs) {p : InstalledPackage}
    (hp : p ∈ r.job.packages) :
    Stage.Gives (Session.Sound v runs) (bridgeStage c r.settings p)
      (bridgeCodec.readBack (v.bridges p.package r.settings.scan)) := by
  have hgives : Stage.Gives (Session.Sound v runs) (bridgeStage c r.settings p) (bridgeCodec.settled _ _) :=
    .cached (hv.bridges p hp) fun text => by simp [admissible_bridgeReport_iff hdigests hr p.package]
  exact hgives

end

end Bridgework
