import Bridgework.Proofs.Analysis.Answers
import Bridgework.Proofs.Analysis.Codec
import Bridgework.Proofs.Analysis.Job

/-!
# Analyses that share a cache

Analyses follow one another over one cache. Unified graphs are kept under the packages, the libraries that were
left out and the settings of the scan, and nothing else. As long as the text of these tells them apart, this is
enough, since they determine all that goes into a unified graph: an analysis never gets the graph of another one
whose libraries were missing while its own are there, or the other way round. Two analyses with one text share
their graph, and the second is given that of the first.

- `AnalysisRun.Presents`, `AnalysisRun.Yields` : the analysis of what was obtained
- `AnalysisRun.analyze_eq_ok_iff` : when an analysis succeeds
- `AnalysisRun.stitch_eq_of_text_eq` : analyses with one text
- `Session.Follows` : the sessions after some analyses
- `shared_cache_exact` : what an analysis gives
-/

namespace Bridgework

variable {σ : Type}

/-! ## Analyses -/

namespace AnalysisRun

variable (r : AnalysisRun) (c : Collaborators σ) (s : Session σ)

-- The four groups of stages, each from the session that the one before leaves.

def tried : List Attempt × Session σ := attempts c r.settings r.job.libraries s

def bridges : Except Error (List BridgeReport) × Session σ :=
  Stage.each (bridgeStage c r.settings) r.job.packages (r.tried c s).2

def interpreted : Except Error (List InterpretedGraph) × Session σ :=
  Stage.each (interpretedStage c) r.job.packages (r.bridges c s).2

def unified (reports : List BridgeReport) (graphs : List InterpretedGraph) :
    Except Error StitchReport × Session σ :=
  r.unifiedStage (Attempt.missing (r.tried c s).1) ⟨graphs, Attempt.obtained (r.tried c s).1, reports⟩
    (r.interpreted c s).2

/-- The analysis of what was obtained, whatever its unified graph is: the libraries that were not obtained are
recorded. -/
structure Presents (reports : List BridgeReport) (graphs : List InterpretedGraph) (a : PackageAnalysis) :
    Prop where
  bridges : (r.bridges c s).1 = .ok reports
  interpreted : (r.interpreted c s).1 = .ok graphs
  degraded : a.degraded = Attempt.failures (r.tried c s).1
  package : a.package = r.job.client.package
  bridgeReports : a.bridgeReports = reports
  reached : a.reached = reachedFromPackage a.stitch.graph r.job.client.package

/-- The unified graph is that of the obtained graphs and reports as well, as it is read back. -/
structure Yields (reports : List BridgeReport) (graphs : List InterpretedGraph) (report : StitchReport)
    (a : PackageAnalysis) : Prop extends r.Presents c s reports graphs a where
  stitched : stitch ⟨graphs, Attempt.obtained (r.tried c s).1, reports⟩ = .ok report
  stitch : stitchCodec.readBack report = .ok a.stitch

def afterAttempts (attempted : List Attempt) : Stage σ PackageAnalysis := do
  let reports ← Stage.each (bridgeStage c r.settings) r.job.packages
  let graphs ← Stage.each (interpretedStage c) r.job.packages
  let report ← r.unifiedStage (Attempt.missing attempted) ⟨graphs, Attempt.obtained attempted, reports⟩
  return ⟨r.job.client.package, reports, report, reachedFromPackage report.graph r.job.client.package,
    Attempt.failures attempted⟩

/-- An analysis is its attempts, and then the stages that follow. -/
theorem analyze_eq :
    r.job.analyze c r.settings s = r.afterAttempts c (r.tried c s).1 (r.tried c s).2 := by
  rw [Job.analyze, Stage.bind_of_ok (nativeStages_eq c r.settings r.job.libraries s)]
  rfl

/-- An analysis succeeds exactly if bridge reports, call graphs of interpreted code and a unified graph can be
had, however many native call graphs cannot. -/
theorem analyze_eq_ok_iff (a : PackageAnalysis) :
    (r.job.analyze c r.settings s).1 = .ok a ↔
      ∃ reports graphs, r.Presents c s reports graphs a ∧ (r.unified c s reports graphs).1 = .ok a.stitch := by
  rw [analyze_eq]
  constructor
  · intro ha
    obtain ⟨reports, hreports, ha⟩ := Stage.fst_bind_eq_ok_iff.1 ha
    obtain ⟨graphs, hgraphs, ha⟩ := Stage.fst_bind_eq_ok_iff.1 ha
    obtain ⟨kept, hkept, ha⟩ := Stage.fst_bind_eq_ok_iff.1 ha
    rw [Stage.fst_pure] at ha
    cases ha
    exact ⟨reports, graphs, ⟨hreports, hgraphs, rfl, rfl, rfl, rfl⟩, hkept⟩
  · rintro ⟨reports, graphs, h, hkept⟩
    refine Stage.fst_bind_eq_ok_iff.2 ⟨reports, h.bridges, ?_⟩
    refine Stage.fst_bind_eq_ok_iff.2 ⟨graphs, h.interpreted, ?_⟩
    refine Stage.fst_bind_eq_ok_iff.2 ⟨a.stitch, hkept, ?_⟩
    rw [Stage.fst_pure, ← h.reached, ← h.degraded, ← h.bridgeReports, ← h.package]

variable {r c s}

/-- Whatever the unified graph is, there is an analysis that has it. -/
theorem exists_presents {reports : List BridgeReport} {graphs : List InterpretedGraph}
    (hreports : (r.bridges c s).1 = .ok reports) (hgraphs : (r.interpreted c s).1 = .ok graphs)
    (graph : StitchReport) : ∃ a, r.Presents c s reports graphs a ∧ a.stitch = graph :=
  ⟨⟨r.job.client.package, reports, graph, reachedFromPackage graph.graph r.job.client.package,
    Attempt.failures (r.tried c s).1⟩, ⟨hreports, hgraphs, rfl, rfl, rfl, rfl⟩, rfl⟩

/-- If the unified graph is given, the analysis leaves the session that its stage has left. -/
theorem snd_analyze_of_ok {reports : List BridgeReport} {graphs : List InterpretedGraph} {a : PackageAnalysis}
    (h : r.Presents c s reports graphs a) (hunified : (r.unified c s reports graphs).1 = .ok a.stitch) :
    (r.job.analyze c r.settings s).2 = (r.unified c s reports graphs).2 := by
  have hbridges : Stage.each (bridgeStage c r.settings) r.job.packages (r.tried c s).2 =
      (.ok reports, (r.bridges c s).2) := by rw [← h.bridges, bridges]
  have hinterpreted : Stage.each (interpretedStage c) r.job.packages (r.bridges c s).2 =
      (.ok graphs, (r.interpreted c s).2) := by rw [← h.interpreted, interpreted]
  have hstitched : r.unifiedStage (Attempt.missing (r.tried c s).1)
      ⟨graphs, Attempt.obtained (r.tried c s).1, reports⟩ (r.interpreted c s).2 =
        (.ok a.stitch, (r.unified c s reports graphs).2) := by
    rw [← hunified, unified]
  rw [analyze_eq, afterAttempts, Stage.bind_of_ok hbridges, Stage.bind_of_ok hinterpreted,
    Stage.bind_of_ok hstitched, Stage.snd_pure]

/-- The session after an analysis is one of those that its stages leave. -/
theorem snd_analyze {P : Session σ → Prop} (hbridges : P (r.bridges c s).2) (hinterpreted : P (r.interpreted c s).2)
    (hunified : ∀ reports graphs, (r.bridges c s).1 = .ok reports → (r.interpreted c s).1 = .ok graphs →
      P (r.unified c s reports graphs).2) : P (r.job.analyze c r.settings s).2 := by
  rw [analyze_eq]
  refine Stage.snd_bind hbridges fun reports hreports => ?_
  refine Stage.snd_bind hinterpreted fun graphs hgraphs => ?_
  refine Stage.snd_bind (hunified reports graphs hreports hgraphs) fun report _ => ?_
  rw [Stage.snd_pure]
  exact hunified reports graphs hreports hgraphs

section

variable {v : Answers} {runs : List AnalysisRun} (hv : v.Govern c runs)
  (hdigests : DigestsDiffer runs) (hr : r ∈ runs) (hs : s.Sound v runs)

include hv hr hs

/-- The attempts keep the cache sound, and each graph that they give is the answer. -/
theorem sound_tried :
    (r.tried c s).2.Sound v runs ∧
      Attempt.Fit (fun l => nativeCodec.readBack (v.native l)) (r.tried c s).1 := by
  have hspec := attempts_spec (Q := fun l g => nativeCodec.readBack (v.native l) = .ok g)
    (fun x hx => spec_nativeStage hv hr hx) hs
  exact ⟨hspec.1, (attempts_steady hs.idle).1, hspec.2⟩

include hdigests

/-- The bridge stages keep the cache sound, and what they give are the answers. -/
theorem sound_bridges :
    (r.bridges c s).2.Sound v runs ∧ ∀ reports, (r.bridges c s).1 = .ok reports →
      List.Forall₂ (fun p b => bridgeCodec.readBack (v.bridges p r.settings.scan) = .ok b) r.ids
        reports := by
  have hspec := Stage.Spec.each fun p hp => spec_bridgeStage hv hdigests hr hp
  have hrun := hspec (r.tried c s).2 (sound_tried hv hr hs).1
  exact ⟨hrun.1, fun reports h => List.forall₂_map_left_iff.2 (hrun.2 reports h)⟩

/-- The stages for interpreted code keep the cache sound, and what they give are the answers. -/
theorem sound_interpreted :
    (r.interpreted c s).2.Sound v runs ∧ ∀ graphs, (r.interpreted c s).1 = .ok graphs →
      List.Forall₂ (fun p g => interpretedCodec.readBack (v.interpreted p) = .ok g) r.ids graphs := by
  have hspec := Stage.Spec.each fun p hp => spec_interpretedStage hv hr hp
  have hrun := hspec (r.bridges c s).2 (sound_bridges hv hdigests hr hs).1
  exact ⟨hrun.1, fun graphs h => List.forall₂_map_left_iff.2 (hrun.2 graphs h)⟩

/-- What the stages give is what an analysis gathers. -/
theorem gathered {reports : List BridgeReport} {graphs : List InterpretedGraph}
    (hreports : (r.bridges c s).1 = .ok reports) (hgraphs : (r.interpreted c s).1 = .ok graphs) :
    r.Gathered v (r.tried c s).1 ⟨graphs, Attempt.obtained (r.tried c s).1, reports⟩ where
  libraries := map_fst_attempts c r.settings r.job.libraries s
  fit := (sound_tried hv hr hs).2
  native := rfl
  bridges := (sound_bridges hv hdigests hr hs).2 reports hreports
  interpreted := (sound_interpreted hv hdigests hr hs).2 graphs hgraphs

/-- An analysis keeps the cache sound. -/
theorem sound_analyze : (r.job.analyze c r.settings s).2.Sound v runs := by
  have hinterpreted := (sound_interpreted hv hdigests hr hs).1
  refine snd_analyze (sound_bridges hv hdigests hr hs).1 hinterpreted fun reports graphs hreports hgraphs => ?_
  exact (spec_unifiedStage hdigests hr (gathered hv hdigests hr hs hreports hgraphs) _ hinterpreted).1

/-- Its unified graph is that of an analysis with the same text. -/
theorem finds_of_analyze {a : PackageAnalysis} (ha : (r.job.analyze c r.settings s).1 = .ok a) :
    r.Finds v runs (Attempt.missing (r.tried c s).1) a.stitch := by
  obtain ⟨reports, graphs, h, hunified⟩ := (r.analyze_eq_ok_iff c s a).1 ha
  have hgathered := gathered hv hdigests hr hs h.bridges h.interpreted
  exact (spec_unifiedStage hdigests hr hgathered _ (sound_interpreted hv hdigests hr hs).1).2 a.stitch hunified

/-- Under plain names it is its own. -/
theorem unified_eq_ok_iff (hplain : PlainNames runs) {reports : List BridgeReport}
    {graphs : List InterpretedGraph} (hreports : (r.bridges c s).1 = .ok reports)
    (hgraphs : (r.interpreted c s).1 = .ok graphs) (graph : StitchReport) :
    (r.unified c s reports graphs).1 = .ok graph ↔
      ∃ report, Bridgework.stitch ⟨graphs, Attempt.obtained (r.tried c s).1, reports⟩ = .ok report ∧
        stitchCodec.readBack report = .ok graph := by
  have hgives := gives_unifiedStage hv hdigests hr hplain (gathered hv hdigests hr hs hreports hgraphs) _
    (sound_interpreted hv hdigests hr hs).1
  rw [unified, hgives.1, Codec.settled_eq_ok_iff]

end

/-! ## Analyses with one text -/

/-- What every call of the cache keeps is kept until the unified graph is looked for. -/
theorem interpreted_of_invariant {I : Session σ → Prop} (hs : I s)
    (hcall : ∀ {α : Type} {k : Memo.Key} {codec : Codec α} {compute : σ → Except Error α × σ},
      Stage.Spec I (Stage.cached k codec compute) fun _ => True) : I (r.interpreted c s).2 := by
  have htried : I (r.tried c s).2 := (attempts_spec (Q := fun _ _ => True) (fun _ _ => hcall) hs).1
  have hbridges : I (r.bridges c s).2 := (Stage.Spec.each (fun _ _ => hcall) _ htried).1
  exact (Stage.Spec.each (fun _ _ => hcall) _ hbridges).1

/-- A text that is held is the one that an analysis with its key has. -/
theorem unified_of_holds {text : String} (hs : s.Holds (r.unifiedKey (Attempt.missing (r.tried c s).1)) text)
    (reports : List BridgeReport) (graphs : List InterpretedGraph) :
    (r.unified c s reports graphs).1 = stitchCodec.parse text := by
  have hgives : Stage.Gives (Session.Holds (r.unifiedKey (Attempt.missing (r.tried c s).1)) text)
      (r.unifiedStage (Attempt.missing (r.tried c s).1) ⟨graphs, Attempt.obtained (r.tried c s).1, reports⟩ :
        Stage σ StitchReport) (stitchCodec.parse text) := .cached_of_holds
  exact (hgives _ (interpreted_of_invariant hs .cached_of_holds)).1

/-- An analysis that succeeds leaves the text of its unified graph. -/
theorem holds_of_analyze (hs : s.Idle) {a : PackageAnalysis} (ha : (r.job.analyze c r.settings s).1 = .ok a) :
    ∃ text, (r.job.analyze c r.settings s).2.Holds (r.unifiedKey (Attempt.missing (r.tried c s).1)) text ∧
      stitchCodec.parse text = .ok a.stitch := by
  obtain ⟨reports, graphs, h, hunified⟩ := (r.analyze_eq_ok_iff c s a).1 ha
  have hidle : (r.interpreted c s).2.Idle :=
    interpreted_of_invariant hs fun s hs => ⟨(Stage.call_cached _ _ _ hs).2, fun _ _ => trivial⟩
  obtain ⟨hcall, hend⟩ := Stage.call_cached (r.unifiedKey (Attempt.missing (r.tried c s).1)) stitchCodec
    (fun w => (Bridgework.stitch ⟨graphs, Attempt.obtained (r.tried c s).1, reports⟩, w)) hidle
  obtain ⟨text, hkept, hparse⟩ := hcall.exists_kept hunified
  rw [snd_analyze_of_ok h hunified]
  exact ⟨text, ⟨hend, hkept⟩, hparse⟩

/-- The next analysis of the same client with the same text is given the unified graph of the one before,
whatever it has obtained itself. -/
theorem unified_of_text_eq (hs : s.Idle) {a : PackageAnalysis} (ha : (r.job.analyze c r.settings s).1 = .ok a)
    {r' : AnalysisRun} {s' : Session σ} (hs' : (r.job.analyze c r.settings s).2 = s')
    (hclient : r'.job.client.package = r.job.client.package)
    (htext : (r'.source (Attempt.missing (r'.tried c s').1)).text =
      (r.source (Attempt.missing (r.tried c s).1)).text)
    (reports : List BridgeReport) (graphs : List InterpretedGraph) :
    (r'.unified c s' reports graphs).1 = .ok a.stitch := by
  obtain ⟨text, hholds, hparse⟩ := holds_of_analyze hs ha
  have hkey : r'.unifiedKey (Attempt.missing (r'.tried c s').1) =
      r.unifiedKey (Attempt.missing (r.tried c s).1) := by
    rw [unifiedKey, unifiedKey, hclient, context_eq_of_text_eq htext]
  rw [hs', ← hkey] at hholds
  rw [unified_of_holds hholds, hparse]

end AnalysisRun

/-! ## Collaborators that never fail -/

namespace Answers.Serve

variable {c : Collaborators σ} {v : Answers} {runs : List AnalysisRun} {r : AnalysisRun} {s : Session σ}
  (hserve : v.Serve c r) (hv : v.Govern c runs) (hdigests : DigestsDiffer runs) (hr : r ∈ runs)
  (hs : s.Sound v runs)

include hserve hv hdigests hr hs

/-- With reports that are read back unchanged, the stages give the answers themselves. -/
theorem bridges_eq (hread : ∀ p, bridgeCodec.readBack (v.bridges p r.settings.scan) =
    .ok (v.bridges p r.settings.scan)) :
    (r.bridges c s).1 = .ok (r.ids.map fun p => v.bridges p r.settings.scan) := by
  have hgives : Stage.Gives (Session.Sound v runs) _ _ := .each fun p hp => hserve.gives_bridges hdigests hr hp
  rw [AnalysisRun.bridges, (hgives _ (AnalysisRun.sound_tried hv hr hs).1).1]
  simp only [hread, AnalysisRun.ids, List.map_map]
  exact List.mapM_pure

theorem interpreted_eq : (r.interpreted c s).1 = .ok (r.ids.map v.interpreted) := by
  have hgives : Stage.Gives (Session.Sound v runs) _ _ := .each fun p hp => hserve.gives_interpreted hp
  rw [AnalysisRun.interpreted, (hgives _ (AnalysisRun.sound_bridges hv hdigests hr hs).1).1]
  simp only [readBack_interpretedGraph, AnalysisRun.ids, List.map_map]
  exact List.mapM_pure

end Answers.Serve

/-! ## Sessions after some analyses -/

/-- The sessions that analyses leave, beginning with an empty cache. Between two of them time passes, the
cache may be opened anew, and collaborators may change; nothing is taken out of the cache. -/
inductive Session.Follows (c : Collaborators σ) : List AnalysisRun → Session σ → Prop where
  | start (lease : Nat) (now : Int) (world : σ) : Follows c [] ⟨.start lease now, world⟩
  | run {runs : List AnalysisRun} {s : Session σ} (h : Follows c runs s) (r : AnalysisRun) :
      Follows c (runs ++ [r]) (r.job.analyze c r.settings s).2
  | pause {runs : List AnalysisRun} {s : Session σ} (h : Follows c runs s) (now : Int) (world : σ) :
      Follows c runs ⟨{ s.store with now }, world⟩
  | reopen {runs : List AnalysisRun} {s : Session σ} (h : Follows c runs s) (lease : Nat) (now : Int)
      (world : σ) : Follows c runs ⟨⟨s.store.table, [⟨lease, [], .zero⟩], now⟩, world⟩

/-- Whatever analyses were made, the cache is sound with respect to them and to any that may come. -/
theorem Session.Follows.sound {c : Collaborators σ} {v : Answers} {runs all : List AnalysisRun}
    {s : Session σ} (h : Session.Follows c runs s) (hv : v.Govern c all) (hdigests : DigestsDiffer all)
    (hall : runs ⊆ all) : s.Sound v all := by
  induction h with
  | start lease now world => exact .start lease now world
  | run h r ih =>
    have hr : r ∈ all := hall (List.mem_append_right _ List.mem_cons_self)
    have hs := ih fun r' hr' => hall (List.mem_append_left _ hr')
    exact AnalysisRun.sound_analyze hv hdigests hr hs
  | pause h now world ih =>
    have hs := ih hall
    exact ⟨⟨hs.idle.settled, hs.idle.landed⟩, hs.kept⟩
  | reopen h lease now world ih =>
    have hs := ih hall
    refine ⟨⟨hs.idle.settled, fun x hx => ?_⟩, hs.kept⟩
    cases hx
    rfl

/-- After any analyses over one cache, each library is tried, and whatever is obtained is the answer for it.
The analysis succeeds exactly if bridge reports, call graphs of interpreted code and a unified graph can be had,
however many native call graphs cannot. Its unified graph is that of an analysis with the same text. If the names
are plain, it is the one of what the analysis has obtained itself. -/
theorem shared_cache_exact (c : Collaborators σ) (v : Answers) (runs : List AnalysisRun) (r : AnalysisRun)
    (s : Session σ) (hv : v.Govern c (runs ++ [r])) (hdigests : DigestsDiffer (runs ++ [r]))
    (hs : Session.Follows c runs s) :
    (r.tried c s).1.map Prod.fst = r.libraries ∧
    (∀ x ∈ (r.tried c s).1, ∀ g, x.2 = .ok g → nativeCodec.readBack (v.native x.1) = .ok g) ∧
    (∀ a, (r.job.analyze c r.settings s).1 = .ok a ↔
      ∃ reports graphs, r.Presents c s reports graphs a ∧ (r.unified c s reports graphs).1 = .ok a.stitch) ∧
    (∀ a, (r.job.analyze c r.settings s).1 = .ok a →
      r.Finds v (runs ++ [r]) (Attempt.missing (r.tried c s).1) a.stitch) ∧
    (PlainNames (runs ++ [r]) → ∀ a, (r.job.analyze c r.settings s).1 = .ok a ↔
      ∃ reports graphs report, r.Yields c s reports graphs report a) := by
  -- What the session holds was put there by the runs before, all of them under the same answers.
  have hsound := hs.sound hv hdigests (List.subset_append_left runs [r])
  have hr : r ∈ runs ++ [r] := List.mem_append_right runs List.mem_cons_self
  have htried := AnalysisRun.sound_tried hv hr hsound
  refine ⟨map_fst_attempts c r.settings r.job.libraries s, htried.2.value, r.analyze_eq_ok_iff c s,
    fun a ha => AnalysisRun.finds_of_analyze hv hdigests hr hsound ha, fun hplain a => ?_⟩
  -- The key of the stitched graph is made of all names of the run: plain names are needed for this
  -- part alone.
  rw [r.analyze_eq_ok_iff c s a]
  constructor
  · rintro ⟨reports, graphs, h, hunified⟩
    obtain ⟨report, hstitch, hread⟩ :=
      (AnalysisRun.unified_eq_ok_iff hv hdigests hr hsound hplain h.bridges h.interpreted a.stitch).1 hunified
    exact ⟨reports, graphs, report, h, hstitch, hread⟩
  · rintro ⟨reports, graphs, report, h⟩
    exact ⟨reports, graphs, h.toPresents,
      (AnalysisRun.unified_eq_ok_iff hv hdigests hr hsound hplain h.bridges h.interpreted a.stitch).2
        ⟨report, h.stitched, h.stitch⟩⟩

/-! ## A library that recovers -/

def flakyApp : InstalledPackage := ⟨⟨"app", "1"⟩, "/app", [("core.so", .file)]⟩

def flakyLibrary : Library := ⟨⟨"app", "1"⟩, "core.so"⟩

def flakyRun : AnalysisRun := ⟨⟨flakyApp, []⟩, .default ⟨"/home", 1⟩⟩

/-- A function that runs a symbol of the library. -/
def flakyAnswers : Answers where
  native l := { NativeGraph.empty l with functions := .ofList ["run"], exports := [⟨"run", 0⟩] }
  bridges p _ :=
    { BridgeReport.empty p with
      objectsExamined := 1, callableObjects := 1, foreignObjects := 1, count := 1, libraries := ["core.so"],
      bridges := [⟨"app.run", "run", "core.so"⟩] }
  interpreted p := { InterpretedGraph.empty p with functions := .ofList ["app.run"] }

/-- Collaborators that give native call graphs only while their state says so. -/
def flaky : Collaborators Bool where
  nativeGraph _ l _ up := (if up then .ok (flakyAnswers.native l) else .error (.timeout "core.so" 1), up)
  bridgeReport p scan up := (.ok (flakyAnswers.bridges p.package scan), up)
  interpretedGraph p up := (.ok (flakyAnswers.interpreted p.package), up)

def beforeFailure : Session Bool := ⟨.start 1 0, false⟩

/-- Some time after the first analysis, when the library can be analysed again. -/
def recovered : Session Bool :=
  ⟨{ (flakyRun.job.analyze flaky flakyRun.settings beforeFailure).2.store with now := 1000 }, true⟩

theorem libraries_flakyApp : flakyApp.libraries = [flakyLibrary] := by
  have hpaths : Install.Tree.pathsIn "" flakyApp.tree = ["core.so"] := by
    simp [flakyApp, Install.Tree.pathsIn]
  have hobjects : (["core.so"].map Path.normalize).filter
      (fun p => Install.isSharedObject (Path.fileName p)) = ["core.so"] := by decide
  rw [InstalledPackage.libraries, Install.Tree.sharedObjects, Install.Tree.files, hpaths, hobjects,
    List.mergeSort_singleton]
  rfl

theorem libraries_flakyRun : flakyRun.job.libraries = [(flakyApp, flakyLibrary)] := by
  have hpackages : flakyRun.job.packages = [flakyApp] := rfl
  rw [Job.libraries, hpackages, List.flatMap_singleton, libraries_flakyApp]
  rfl

theorem flakyRun_libraries : flakyRun.libraries = [flakyLibrary] := by
  rw [AnalysisRun.libraries, libraries_flakyRun]
  rfl

/-- In no run do the collaborators give anything but the answers. -/
theorem govern_flakyAnswers (n : Nat) : flakyAnswers.Govern flaky (List.replicate n flakyRun) where
  native := by
    intro r _ x _ up g hg
    cases up with
    | true => exact (Except.ok.inj hg).symm
    | false => cases hg
  bridges := by
    intro r _ p _ up b hb
    exact (Except.ok.inj hb).symm
  interpreted := by
    intro r _ p _ up g hg
    exact (Except.ok.inj hg).symm
  installs := by
    intro r hr r' hr' p hp q hq _
    rw [List.eq_of_mem_replicate hr] at hp
    rw [List.eq_of_mem_replicate hr'] at hq
    rw [List.mem_singleton.1 hp, List.mem_singleton.1 hq]

theorem serve_flakyAnswers : flakyAnswers.Serve flaky flakyRun := ⟨fun _ _ _ => rfl, fun _ _ _ => rfl⟩

theorem scan_flakyRun : flakyRun.settings.scan = ScanSettings.default := rfl

/-- The digests of the texts with the library and without it. -/
theorem shortDigest_flakyRun : shortDigest 16 (flakyRun.source []).text = "655362b88206cc65" ∧
    shortDigest 16 (flakyRun.source [flakyLibrary]).text = "84ef64ce00ee309a" := by
  rw [AnalysisRun.source, AnalysisRun.source, scan_flakyRun, GraphSource.text_default, GraphSource.text_default]
  decide +kernel

/-- A run has two texts, or a third if the library is missing; the three digests differ. -/
theorem digestsDiffer_flakyRun (n : Nat) : DigestsDiffer (List.replicate n flakyRun) := by
  have hdigests : ([ScanSettings.default.toJson.render, (flakyRun.source []).text,
      (flakyRun.source [flakyLibrary]).text].map (shortDigest 16)).Nodup := by
    simp only [List.map_cons, List.map_nil, GraphSource.shortDigest_scanSettings, shortDigest_flakyRun]
    decide
  refine .of_nodup (fun r hr text htext => ?_) hdigests
  rw [List.eq_of_mem_replicate hr] at htext
  have hmem := htext.mem_of_libraries_singleton flakyRun_libraries
  rwa [scan_flakyRun] at hmem

theorem plainNames_flakyRun (n : Nat) : PlainNames (List.replicate n flakyRun) where
  plain := by
    intro r hr
    rw [List.eq_of_mem_replicate hr, flakyRun_libraries]
    constructor <;> decide
  marked := by
    refine .inl fun l hl => ?_
    obtain ⟨r, hr, hl⟩ := List.mem_flatMap.1 hl
    rw [List.eq_of_mem_replicate hr, flakyRun_libraries, List.mem_singleton] at hl
    rw [hl]
    decide

/-- In the first analysis there is no library. -/
theorem tried_beforeFailure : (flakyRun.tried flaky beforeFailure).1 =
    [(flakyLibrary, .error (.computationFailed (Memo.Key.display ⟨.nativeGraph, ⟨"app", "1"⟩, "core.so"⟩)
      (Error.message (.timeout "core.so" 1))))] := by
  rw [AnalysisRun.tried, libraries_flakyRun]
  rfl

theorem follows_recovered : Session.Follows flaky [flakyRun] recovered :=
  .pause (.run (.start 1 0 false) flakyRun) 1000 true

/-- In the second there is. The cache is sound after the failure, so a text of the library could only be that of
its graph. -/
theorem tried_recovered :
    (flakyRun.tried flaky recovered).1 = [(flakyLibrary, .ok (flakyAnswers.native flakyLibrary))] := by
  have hsound := follows_recovered.sound (govern_flakyAnswers 1) (digestsDiffer_flakyRun 1) (List.Subset.refl _)
  have hcall := (Stage.call_cached ⟨.nativeGraph, flakyLibrary.package, flakyLibrary.path⟩ nativeCodec
    (flaky.nativeGraph flakyApp flakyLibrary flakyRun.settings.batch.nativeTimeout) hsound.idle).1
  have hreply : (flaky.nativeGraph flakyApp flakyLibrary flakyRun.settings.batch.nativeTimeout recovered.world).1 =
      .ok (flakyAnswers.native flakyLibrary) := rfl
  have hsettled := hcall.eq_settled hreply fun text hrow => ⟨_, rfl, hsound.kept _ text hrow⟩
  have hgiven : (nativeStage flaky flakyRun.settings flakyApp flakyLibrary recovered).1 =
      .ok (flakyAnswers.native flakyLibrary) := hsettled.trans (readBack_nativeGraph _)
  rw [AnalysisRun.tried, libraries_flakyRun, attempts, hgiven]
  rfl

/-- What the analysis has obtained besides native call graphs, after any number of analyses. -/
theorem presents_flakyRun {n : Nat} {s : Session Bool} (hs : Session.Follows flaky (List.replicate n flakyRun) s) :
    (flakyRun.bridges flaky s).1 = .ok [flakyAnswers.bridges flakyApp.package flakyRun.settings.scan] ∧
      (flakyRun.interpreted flaky s).1 = .ok [flakyAnswers.interpreted flakyApp.package] := by
  have hr : flakyRun ∈ List.replicate (n + 1) flakyRun := List.mem_replicate.2 ⟨n.succ_ne_zero, rfl⟩
  have hsound := hs.sound (govern_flakyAnswers (n + 1)) (digestsDiffer_flakyRun (n + 1)) (by
    intro r h
    rwa [List.eq_of_mem_replicate h])
  have hread (p : Package) : bridgeCodec.readBack (flakyAnswers.bridges p flakyRun.settings.scan) =
      .ok (flakyAnswers.bridges p flakyRun.settings.scan) := by
    have hone : 1 < UInt64.size := by decide
    have hnone : 0 < UInt64.size := by decide
    exact readBack_bridgeReport ⟨hone, hone, hone, hone, hnone, rfl⟩
  exact ⟨serve_flakyAnswers.bridges_eq (govern_flakyAnswers _) (digestsDiffer_flakyRun _) hr hsound hread,
    serve_flakyAnswers.interpreted_eq (govern_flakyAnswers _) (digestsDiffer_flakyRun _) hr hsound⟩

/-- What is stitched with some native call graphs. -/
def flakyInputs (native : List NativeGraph) : StitchInputs :=
  ⟨[flakyAnswers.interpreted flakyApp.package], native,
    [flakyAnswers.bridges flakyApp.package flakyRun.settings.scan]⟩

/-- An analysis of the app gives the graph that is stitched from what was obtained. -/
theorem yields_flakyRun {n : Nat} {s : Session Bool} (hs : Session.Follows flaky (List.replicate n flakyRun) s)
    {native : List NativeGraph} (hnative : Attempt.obtained (flakyRun.tried flaky s).1 = native)
    (hstitch : stitch (flakyInputs native) = .ok (flakyInputs native).report)
    (hread : StitchReport.ofJson (flakyInputs native).report.toJson = .ok (flakyInputs native).report) :
    ∃ reports graphs a, flakyRun.Yields flaky s reports graphs (flakyInputs native).report a ∧
      a.stitch = (flakyInputs native).report := by
  subst hnative
  obtain ⟨hbridges, hinterpreted⟩ := presents_flakyRun hs
  obtain ⟨a, ha, hgraph⟩ := AnalysisRun.exists_presents hbridges hinterpreted _
  exact ⟨_, _, a, ⟨ha, hstitch, by rw [hgraph, readBack_stitchReport, hread]⟩, hgraph⟩

/-- The library fails in the first analysis, and its bridge leads nowhere. It is there in the second, which has
the unified graph of its own graphs and not the one that was kept. -/
theorem shared_cache_exact_recovered :
    (∃ a, (flakyRun.job.analyze flaky flakyRun.settings beforeFailure).1 = .ok a ∧
      a.degraded.map (·.library) = [flakyLibrary] ∧ a.stitch.bridgesApplied = 0) ∧
    ∃ a, (flakyRun.job.analyze flaky flakyRun.settings recovered).1 = .ok a ∧
      a.degraded.map (·.library) = [] ∧ a.stitch.bridgesApplied = 1 := by
  have hbefore := (shared_cache_exact flaky flakyAnswers [] flakyRun beforeFailure (govern_flakyAnswers 1)
    (digestsDiffer_flakyRun 1) (.start 1 0 false)).2.2.2.2 (plainNames_flakyRun 1)
  have hafter := (shared_cache_exact flaky flakyAnswers [flakyRun] flakyRun recovered (govern_flakyAnswers 2)
    (digestsDiffer_flakyRun 2) follows_recovered).2.2.2.2 (plainNames_flakyRun 2)
  constructor
  -- Before the failure is over, the library gives no graph, and the bridge has no end to go to.
  · have hnative : Attempt.obtained (flakyRun.tried flaky beforeFailure).1 = [] := by
      rw [tried_beforeFailure]
      rfl
    obtain ⟨reports, graphs, a, ha, hgraph⟩ := yields_flakyRun (n := 0) (.start 1 0 false) hnative
      rfl rfl
    refine ⟨a, (hbefore a).2 ⟨reports, graphs, _, ha⟩, ?_, ?_⟩
    · rw [ha.degraded]
      exact congrArg Attempt.missing tried_beforeFailure
    · rw [hgraph]
      rfl
  -- Afterwards the graph is there, although the result without it was cached before.
  · have hnative : Attempt.obtained (flakyRun.tried flaky recovered).1 = [flakyAnswers.native flakyLibrary] := by
      rw [tried_recovered]
      rfl
    obtain ⟨reports, graphs, a, ha, hgraph⟩ := yields_flakyRun (n := 1) follows_recovered hnative
      rfl rfl
    refine ⟨a, (hafter a).2 ⟨reports, graphs, _, ha⟩, ?_, ?_⟩
    · rw [ha.degraded]
      exact congrArg Attempt.missing tried_recovered
    · rw [hgraph]
      rfl

/-! ## Packages that are taken for one another -/

/-- Collaborators that give every answer. -/
def Answers.collaborators (v : Answers) : Collaborators Unit where
  nativeGraph _ l _ w := (.ok (v.native l), w)
  bridgeReport p scan w := (.ok (v.bridges p.package scan), w)
  interpretedGraph p w := (.ok (v.interpreted p.package), w)

/-- One function in each package, and no native code. -/
def oneFunction : Answers where
  native := .empty
  bridges p _ := .empty p
  interpreted p := { InterpretedGraph.empty p with functions := .ofList ["f"] }

/-- A package without files. -/
def bare (p : Package) : InstalledPackage := ⟨p, "/" ++ p.name, []⟩

/-- An analysis of such packages. -/
def bareRun (client : Package) (dependencies : List Package) : AnalysisRun :=
  ⟨⟨bare client, dependencies.map bare⟩, flakyRun.settings⟩

theorem libraries_bare (p : Package) : (bare p).libraries = [] := by
  simp [InstalledPackage.libraries, Install.Tree.sharedObjects, Install.Tree.files, bare, Install.Tree.pathsIn]

theorem exists_bare {client : Package} {dependencies : List Package} {p : InstalledPackage}
    (hp : p ∈ (bareRun client dependencies).job.packages) : ∃ q, p = bare q := by
  rcases List.mem_cons.1 (Job.mem_of_mem_packages hp) with rfl | hp
  · exact ⟨client, rfl⟩
  · obtain ⟨q, _, rfl⟩ := List.mem_map.1 hp
    exact ⟨q, rfl⟩

/-- Packages without files have no libraries. -/
theorem bareRun_libraries (client : Package) (dependencies : List Package) :
    (bareRun client dependencies).libraries = [] := by
  rw [AnalysisRun.libraries_eq_flatMap, List.flatMap_eq_nil_iff]
  intro p hp
  obtain ⟨q, rfl⟩ := exists_bare hp
  exact libraries_bare q

theorem tried_bareRun (c : Collaborators σ) (client : Package) (dependencies : List Package) (s : Session σ) :
    ((bareRun client dependencies).tried c s).1 = [] := by
  have hlibraries := map_fst_attempts c flakyRun.settings (bareRun client dependencies).job.libraries s
  exact List.map_eq_nil_iff.1 (hlibraries.trans (bareRun_libraries client dependencies))

/-- Two packages, and one whose version has the text of the second in it. -/
def pairRun : AnalysisRun := bareRun ⟨"app", "1"⟩ [⟨"b", "2"⟩, ⟨"c", "3"⟩]

def mergedRun : AnalysisRun := bareRun ⟨"app", "1"⟩ [⟨"b", "2,c:3"⟩]

theorem tried_pairRun (c : Collaborators σ) (s : Session σ) : (pairRun.tried c s).1 = [] := tried_bareRun c _ _ s

theorem tried_mergedRun (c : Collaborators σ) (s : Session σ) : (mergedRun.tried c s).1 = [] :=
  tried_bareRun c _ _ s

theorem ids_pairRun : pairRun.ids = [⟨"app", "1"⟩, ⟨"b", "2"⟩, ⟨"c", "3"⟩] := rfl

theorem ids_mergedRun : mergedRun.ids = [⟨"app", "1"⟩, ⟨"b", "2,c:3"⟩] := rfl

/-- The version that is written with a comma makes both texts the same. -/
theorem text_mergedRun : (mergedRun.source []).text = (pairRun.source []).text := by
  rw [AnalysisRun.source, AnalysisRun.source, ids_pairRun, ids_mergedRun]
  exact GraphSource.text_merged ⟨"app", "1"⟩ ⟨"b", "2"⟩ ⟨"c", "3"⟩ [] [] flakyRun.settings.scan

theorem serve_oneFunction (r : AnalysisRun) : oneFunction.Serve oneFunction.collaborators r :=
  ⟨fun _ _ _ => rfl, fun _ _ _ => rfl⟩

/-- The collaborators always give the answers. -/
theorem govern_oneFunction : oneFunction.Govern oneFunction.collaborators [pairRun, mergedRun] where
  native _ _ _ _ _ _ hg := (Except.ok.inj hg).symm
  bridges _ _ _ _ _ _ hb := (Except.ok.inj hb).symm
  interpreted _ _ _ _ _ _ hg := (Except.ok.inj hg).symm
  installs := by
    have hnone {r : AnalysisRun} (hr : r ∈ [pairRun, mergedRun]) {p : InstalledPackage}
        (hp : p ∈ r.job.packages) : p.libraries = [] := by
      simp only [List.mem_cons, List.not_mem_nil, or_false] at hr
      rcases hr with rfl | rfl
      · obtain ⟨q, rfl⟩ := exists_bare hp
        exact libraries_bare q
      · obtain ⟨q, rfl⟩ := exists_bare hp
        exact libraries_bare q
    intro r hr r' hr' p hp q hq _
    rw [hnone hr hp, hnone hr' hq]

theorem scan_pairRun : pairRun.settings.scan = ScanSettings.default := rfl

theorem scan_mergedRun : mergedRun.settings.scan = ScanSettings.default := rfl

/-- The settings and the packages have different digests, and there is no other text. -/
theorem digestsDiffer_oneFunction : DigestsDiffer [pairRun, mergedRun] := by
  have hdigests : ([ScanSettings.default.toJson.render, (pairRun.source []).text].map (shortDigest 16)).Nodup := by
    simp only [List.map_cons, List.map_nil, AnalysisRun.source, scan_pairRun, ids_pairRun,
      GraphSource.shortDigest_scanSettings, GraphSource.text_default]
    decide +kernel
  refine .of_nodup (fun r hr text htext => ?_) hdigests
  simp only [List.mem_cons, List.not_mem_nil, or_false] at hr
  rcases hr with rfl | rfl
  · have hlibraries : pairRun.libraries = [] := bareRun_libraries _ _
    have hmem := htext.mem_of_libraries_nil hlibraries
    rwa [scan_pairRun] at hmem
  · have hlibraries : mergedRun.libraries = [] := bareRun_libraries _ _
    have hmem := htext.mem_of_libraries_nil hlibraries
    rwa [text_mergedRun, scan_mergedRun] at hmem

/-- What is stitched for some packages. -/
def bareInputs (packages : List Package) : StitchInputs :=
  ⟨packages.map oneFunction.interpreted, [], packages.map .empty⟩

/-- In both analyses the stages give the same kind of report for each package. -/
theorem stages_oneFunction {r : AnalysisRun} (hr : r ∈ [pairRun, mergedRun]) {s : Session Unit}
    (hs : s.Sound oneFunction [pairRun, mergedRun]) :
    (r.bridges oneFunction.collaborators s).1 = .ok (bareInputs r.ids).bridges ∧
      (r.interpreted oneFunction.collaborators s).1 = .ok (bareInputs r.ids).interpreted := by
  exact ⟨(serve_oneFunction r).bridges_eq govern_oneFunction digestsDiffer_oneFunction hr hs readBack_emptyReport,
    (serve_oneFunction r).interpreted_eq govern_oneFunction digestsDiffer_oneFunction hr hs⟩

def beforePair : Session Unit := ⟨.start 1 0, ()⟩

theorem sound_beforePair (runs : List AnalysisRun) : beforePair.Sound oneFunction runs := .start 1 0 ()

theorem plainNames_pairRun : PlainNames [pairRun] where
  plain := by
    intro r hr
    rw [List.mem_singleton.1 hr, AnalysisRun.source, ids_pairRun, pairRun, bareRun_libraries]
    constructor <;> decide
  marked := by
    rw [List.flatMap_singleton, pairRun, bareRun_libraries]
    exact .inl fun l hl => absurd hl List.not_mem_nil

theorem stitch_mergedRun : stitch (bareInputs mergedRun.ids) = .ok (bareInputs mergedRun.ids).report := by
  rw [ids_mergedRun]
  rfl

theorem readBack_mergedRun :
    stitchCodec.readBack (bareInputs mergedRun.ids).report = .ok (bareInputs mergedRun.ids).report := by
  rw [readBack_stitchReport, ids_mergedRun]
  rfl

/-- The first analysis has the unified graph of its packages. -/
theorem analyze_pairRun :
    ∃ a, (pairRun.job.analyze oneFunction.collaborators pairRun.settings beforePair).1 = .ok a ∧
      a.stitch = (bareInputs pairRun.ids).report := by
  have hsub : [pairRun] ⊆ [pairRun, mergedRun] := List.subset_append_left [pairRun] [mergedRun]
  obtain ⟨hbridges, hinterpreted⟩ := stages_oneFunction List.mem_cons_self (sound_beforePair _)
  obtain ⟨a, ha, hgraph⟩ := AnalysisRun.exists_presents hbridges hinterpreted (bareInputs pairRun.ids).report
  have hstitch : stitch (bareInputs pairRun.ids) = .ok (bareInputs pairRun.ids).report := by
    rw [ids_pairRun]
    rfl
  have hread : stitchCodec.readBack (bareInputs pairRun.ids).report = .ok (bareInputs pairRun.ids).report := by
    rw [readBack_stitchReport, ids_pairRun]
    rfl
  -- Nothing is cached before the pair is run, so that the graph is stitched from what was answered.
  have hunified : (pairRun.unified oneFunction.collaborators beforePair (bareInputs pairRun.ids).bridges
      (bareInputs pairRun.ids).interpreted).1 = .ok a.stitch := by
    rw [AnalysisRun.unified_eq_ok_iff (govern_oneFunction.mono hsub) (digestsDiffer_oneFunction.mono hsub)
      List.mem_cons_self (sound_beforePair _) plainNames_pairRun hbridges hinterpreted, tried_pairRun, hgraph]
    exact ⟨_, hstitch, hread⟩
  exact ⟨a, (pairRun.analyze_eq_ok_iff _ _ a).2 ⟨_, _, ha, hunified⟩, hgraph⟩

def afterPair : Session Unit :=
  (pairRun.job.analyze oneFunction.collaborators pairRun.settings beforePair).2

theorem follows_afterPair : Session.Follows oneFunction.collaborators [pairRun] afterPair :=
  .run (.start 1 0 ()) pairRun

/-- The second has the same one, as it has the same text. -/
theorem analyze_mergedRun :
    ∃ a, (mergedRun.job.analyze oneFunction.collaborators mergedRun.settings afterPair).1 = .ok a ∧
      a.stitch = (bareInputs pairRun.ids).report := by
  have hsound := follows_afterPair.sound govern_oneFunction digestsDiffer_oneFunction
    (List.subset_append_left [pairRun] [mergedRun])
  obtain ⟨hbridges, hinterpreted⟩ := stages_oneFunction (List.mem_cons_of_mem _ List.mem_cons_self) hsound
  obtain ⟨first, hfirst, hgraph⟩ := analyze_pairRun
  have hunified : (mergedRun.unified oneFunction.collaborators afterPair (bareInputs mergedRun.ids).bridges
      (bareInputs mergedRun.ids).interpreted).1 = .ok first.stitch := by
    have hclient : mergedRun.job.client.package = pairRun.job.client.package := rfl
    have hleft : (pairRun.job.analyze oneFunction.collaborators pairRun.settings beforePair).2 = afterPair := rfl
    refine AnalysisRun.unified_of_text_eq (sound_beforePair []).idle hfirst hleft hclient ?_ _ _
    rw [tried_pairRun, tried_mergedRun]
    exact text_mergedRun
  obtain ⟨a, ha, hsame⟩ := AnalysisRun.exists_presents hbridges hinterpreted first.stitch
  exact ⟨a, (mergedRun.analyze_eq_ok_iff _ _ a).2 ⟨_, _, ha, hsame ▸ hunified⟩, hsame.trans hgraph⟩

/-- Digests do not collide, but the second analysis has the text of the first. So it is given the unified graph
of the first, with a function of a package that is none of its own. -/
theorem shared_cache_confused :
    oneFunction.Govern oneFunction.collaborators [pairRun, mergedRun] ∧ DigestsDiffer [pairRun, mergedRun] ∧
    Session.Follows oneFunction.collaborators [pairRun] afterPair ∧
    ∃ a, (mergedRun.job.analyze oneFunction.collaborators mergedRun.settings afterPair).1 = .ok a ∧
      .interpreted ⟨"c", "3"⟩ "f" ∈ a.stitch.graph.nodes ∧
      ¬ ∃ reports graphs report, mergedRun.Yields oneFunction.collaborators afterPair reports graphs report a := by
  have hsound := follows_afterPair.sound govern_oneFunction digestsDiffer_oneFunction
    (List.subset_append_left [pairRun] [mergedRun])
  obtain ⟨hbridges, hinterpreted⟩ := stages_oneFunction (List.mem_cons_of_mem _ List.mem_cons_self) hsound
  obtain ⟨a, ha, hgraph⟩ := analyze_mergedRun
  refine ⟨govern_oneFunction, digestsDiffer_oneFunction, follows_afterPair, a, ha, ?_, ?_⟩
  · rw [hgraph, ids_pairRun]
    decide
  -- The graph of its own packages would be another one.
  · rintro ⟨reports, graphs, report, h⟩
    obtain rfl := Except.ok.inj (hbridges.symm.trans h.bridges)
    obtain rfl := Except.ok.inj (hinterpreted.symm.trans h.interpreted)
    have hown := h.stitched
    rw [tried_mergedRun] at hown
    obtain rfl := Except.ok.inj (stitch_mergedRun.symm.trans hown)
    have hread := h.stitch
    rw [hgraph, readBack_mergedRun, ids_pairRun, ids_mergedRun] at hread
    revert hread
    decide

end Bridgework
