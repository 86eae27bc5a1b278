import Bridgework.Proofs.Analysis.Job
import Bridgework.Proofs.Analysis.SharedCache

/-!
# Analyses whose results are known beforehand

If what collaborators give or fail to give depends on nothing but the package or the library, then so does
what a stage gives, whatever the cache holds from earlier analyses: a failure leaves no trace and comes
again, and what is kept is the text of what would be given anyway. The analysis of a job is then a function
of the replies alone, as long as no other job of its client has the text of its unified graph.

- `Replies`, `Replies.Govern` : values and failures that are fixed beforehand
- `Replies.analysis` : the analysis of a job in terms of the replies
- `Replies.Apart` : a job whose text no other job has
- `Replies.gives_analyze` : the analysis of such a job is what the stages give
- `Replies.keeps_analyze` : what the analysis of any job keeps
-/

namespace Bridgework

variable {σ : Type}

/-! ## Replies -/

/-- A call graph or a failure for each library, and a bridge report and a call graph of interpreted code, or
failures, for each package. -/
structure Replies where
  native : Library → Except Error NativeGraph
  bridges : Package → Except Error BridgeReport
  interpreted : Package → Except Error InterpretedGraph

/-- In the jobs the collaborators reply as given, whatever state they are in, and a package is installed in
one way only. -/
structure Replies.Govern (v : Replies) (c : Collaborators σ) (settings : Settings) (jobs : List Job) :
    Prop where
  native : ∀ j ∈ jobs, ∀ x ∈ j.libraries, ∀ w,
    (c.nativeGraph x.1 x.2 settings.batch.nativeTimeout w).1 = v.native x.2
  bridges : ∀ j ∈ jobs, ∀ p ∈ j.packages, ∀ w, (c.bridgeReport p settings.scan w).1 = v.bridges p.package
  interpreted : ∀ j ∈ jobs, ∀ p ∈ j.packages, ∀ w, (c.interpretedGraph p w).1 = v.interpreted p.package
  installs : ∀ j ∈ jobs, ∀ j' ∈ jobs, ∀ p ∈ j.client :: j.dependencies,
    ∀ q ∈ j'.client :: j'.dependencies, p.package = q.package → p = q

/-- Replies that govern some jobs govern fewer of them. -/
theorem Replies.Govern.mono {v : Replies} {c : Collaborators σ} {settings : Settings} {jobs jobs' : List Job}
    (h : v.Govern c settings jobs) (hsub : jobs' ⊆ jobs) : v.Govern c settings jobs' where
  native j hj := h.native j (hsub hj)
  bridges j hj := h.bridges j (hsub hj)
  interpreted j hj := h.interpreted j (hsub hj)
  installs j hj j' hj' := h.installs j (hsub hj) j' (hsub hj')

namespace Replies

variable (v : Replies) (settings : Settings) (j : Job)

def nativeResult (l : Library) : Except Error NativeGraph :=
  nativeCodec.settled ⟨.nativeGraph, l.package, l.path⟩ (v.native l)

def bridgeResult (p : Package) : Except Error BridgeReport :=
  bridgeCodec.settled ⟨.bridgeReport, p, scanContext settings.scan⟩ (v.bridges p)

def interpretedResult (p : Package) : Except Error InterpretedGraph :=
  interpretedCodec.settled ⟨.interpretedGraph, p, "callgraph"⟩ (v.interpreted p)

/-- The attempts at the libraries of a job. -/
def tried : List Attempt := j.libraries.map fun x => (x.2, v.nativeResult x.2)

def unifiedKey : Memo.Key := AnalysisRun.unifiedKey ⟨j, settings⟩ (Attempt.missing (v.tried j))

def unifiedText : String := (AnalysisRun.source ⟨j, settings⟩ (Attempt.missing (v.tried j))).text

/-- No job of the same client with other packages has the same text. -/
def Apart (jobs : List Job) : Prop :=
  ∀ j' ∈ jobs, j'.client.package = j.client.package → v.unifiedText settings j' = v.unifiedText settings j →
    j'.packages = j.packages

/-- Only libraries of the job are tried. -/
theorem missing_sublist : (Attempt.missing (v.tried j)).Sublist (AnalysisRun.libraries ⟨j, settings⟩) := by
  have hsublist := Attempt.missing_sublist (v.tried j)
  rwa [tried, List.map_map] at hsublist

/-- The analysis of a job, as far as the replies allow. -/
def analysis : Except Error PackageAnalysis := do
  let reports ← j.packages.mapM fun p => v.bridgeResult settings p.package
  let graphs ← j.packages.mapM fun p => v.interpretedResult p.package
  let report ← stitchCodec.settled (v.unifiedKey settings j)
    (stitch ⟨graphs, Attempt.obtained (v.tried j), reports⟩)
  return ⟨j.client.package, reports, report, reachedFromPackage report.graph j.client.package,
    Attempt.failures (v.tried j)⟩

/-- What there is to stitch for a job, if all of it can be had. -/
structure Supplies (i : StitchInputs) : Prop where
  bridges : j.packages.mapM (fun p => v.bridgeResult settings p.package) = .ok i.bridges
  interpreted : j.packages.mapM (fun p => v.interpretedResult p.package) = .ok i.interpreted
  native : i.native = Attempt.obtained (v.tried j)

/-- The texts that may be kept under a key: those of the replies, and those of the unified graphs of the
jobs. -/
def Admits (jobs : List Job) (k : Memo.Key) (text : String) : Prop :=
  match k.kind with
  | .nativeGraph => ∃ g, v.native ⟨k.package, k.context⟩ = .ok g ∧ text = nativeCodec.render g
  | .bridgeReport => ∃ b, v.bridges k.package = .ok b ∧ text = bridgeCodec.render b
  | .interpretedGraph => ∃ g, v.interpreted k.package = .ok g ∧ text = interpretedCodec.render g
  | .unifiedGraph => ∃ j ∈ jobs, k = v.unifiedKey settings j ∧ ∃ i report, v.Supplies settings j i ∧
      stitch i = .ok report ∧ text = stitchCodec.render report

variable {v settings j}

/-- The analysis of a job for which everything can be had, with the graph that is read back. -/
theorem Supplies.analysis_eq {i : StitchInputs} (h : v.Supplies settings j i) {graph : StitchReport}
    (hgraph : stitchCodec.settled (v.unifiedKey settings j) (stitch i) = .ok graph) :
    v.analysis settings j = .ok ⟨j.client.package, i.bridges, graph,
      reachedFromPackage graph.graph j.client.package, Attempt.failures (v.tried j)⟩ := by
  have hinputs : (⟨i.interpreted, Attempt.obtained (v.tried j), i.bridges⟩ : StitchInputs) = i := by rw [← h.native]
  simp only [analysis, h.bridges, h.interpreted, bind, Except.bind, hinputs, hgraph]
  rfl

/-- The packages determine what there is to stitch. -/
theorem Supplies.eq_of_packages_eq {j' : Job} {i i' : StitchInputs} (h : v.Supplies settings j i)
    (h' : v.Supplies settings j' i') (hpackages : j.packages = j'.packages) : i = i' := by
  have hlibraries : j.libraries = j'.libraries := by rw [Job.libraries, Job.libraries, hpackages]
  have hnative : i.native = i'.native := by
    rw [h.native, h'.native, tried, tried, hlibraries]
  have hbridges : i.bridges = i'.bridges :=
    Except.ok.inj (h.bridges.symm.trans (hpackages ▸ h'.bridges))
  have hinterpreted : i.interpreted = i'.interpreted :=
    Except.ok.inj (h.interpreted.symm.trans (hpackages ▸ h'.interpreted))
  cases i
  cases i'
  cases hnative
  cases hbridges
  cases hinterpreted
  rfl

/-! ## Stages -/

section

variable {c : Collaborators σ} {jobs : List Job} (hv : v.Govern c settings jobs) (hj : j ∈ jobs)

include hv hj

/-- The native stage gives the reply for the library, through the cache. -/
theorem gives_nativeStage {x : InstalledPackage × Library} (hx : x ∈ j.libraries) :
    Stage.Gives (Session.Keeps (v.Admits settings jobs)) (nativeStage c settings x.1 x.2)
      (v.nativeResult x.2) :=
  .cached (hv.native j hj x hx) fun _ => .rfl

/-- The bridge stage gives the reply for the package, through the cache. -/
theorem gives_bridgeStage {p : InstalledPackage} (hp : p ∈ j.packages) :
    Stage.Gives (Session.Keeps (v.Admits settings jobs)) (bridgeStage c settings p)
      (v.bridgeResult settings p.package) :=
  .cached (hv.bridges j hj p hp) fun _ => .rfl

/-- The stage for interpreted code gives the reply for the package, through the cache. -/
theorem gives_interpretedStage {p : InstalledPackage} (hp : p ∈ j.packages) :
    Stage.Gives (Session.Keeps (v.Admits settings jobs)) (interpretedStage c p)
      (v.interpretedResult p.package) :=
  .cached (hv.interpreted j hj p hp) fun _ => .rfl

/-- The attempts come out as the replies say, and what they keep may be kept. -/
theorem attempts_eq_tried {s : Session σ} (hs : s.Keeps (v.Admits settings jobs)) :
    (attempts c settings j.libraries s).1 = v.tried j ∧
      (attempts c settings j.libraries s).2.Keeps (v.Admits settings jobs) := by
  have hstage := fun x hx => gives_nativeStage hv hj (x := x) hx
  rw [tried]
  generalize j.libraries = libraries at hstage
  induction libraries generalizing s with
  | nil => exact ⟨rfl, hs⟩
  | cons x rest ih =>
    rcases hstage x List.mem_cons_self s hs with ⟨hfound, hkeeps⟩
    rcases ih hkeeps fun y hy => hstage y (List.mem_cons_of_mem x hy) with ⟨hrest, hend⟩
    refine ⟨?_, hend⟩
    rw [attempts, List.map_cons, hfound, hrest]

omit hj in
/-- Under plain names no two jobs with different packages have one key. -/
theorem apart_of_plainNames (hdigests : DigestsDiffer (jobs.map fun j => ⟨j, settings⟩))
    (hplain : PlainNames (jobs.map fun j => ⟨j, settings⟩)) {j : Job} (hj : j ∈ jobs) :
    v.Apart settings j jobs := by
  intro j' hj' hclient htext
  have hids := (hplain.same_of_context_eq hdigests (List.mem_map.2 ⟨j', hj', rfl⟩) (List.mem_map.2 ⟨j, hj, rfl⟩)
    (v.missing_sublist settings j') (v.missing_sublist settings j) (AnalysisRun.context_eq_of_text_eq htext)).1
  apply Job.packages_eq_of_ids_eq _ hids
  intro p hp q hq
  exact hv.installs j' hj' j hj p (Job.mem_of_mem_packages hp) q (Job.mem_of_mem_packages hq)

omit hv in
/-- Digests that do not collide tell the texts apart. -/
theorem Apart.packages_eq (hdigests : DigestsDiffer (jobs.map fun j => ⟨j, settings⟩))
    (hapart : v.Apart settings j jobs) {j' : Job} (hj' : j' ∈ jobs)
    (hkey : v.unifiedKey settings j = v.unifiedKey settings j') : j'.packages = j.packages :=
  hapart j' hj' (congrArg Memo.Key.package hkey).symm
    (hdigests.text_eq (List.mem_map.2 ⟨j', hj', rfl⟩) (List.mem_map.2 ⟨j, hj, rfl⟩) (v.missing_sublist settings j')
      (v.missing_sublist settings j) (congrArg Memo.Key.context hkey).symm)

omit hv in
/-- The unified graph is that of the supplies, even if it was kept before: no other job of the client has the
same text. -/
theorem gives_unifiedStage (hdigests : DigestsDiffer (jobs.map fun j => ⟨j, settings⟩))
    (hapart : v.Apart settings j jobs) {i : StitchInputs} (hi : v.Supplies settings j i) :
    Stage.Gives (Session.Keeps (v.Admits settings jobs))
      (AnalysisRun.unifiedStage ⟨j, settings⟩ (Attempt.missing (v.tried j)) i : Stage σ StitchReport)
      (stitchCodec.settled (v.unifiedKey settings j) (stitch i)) := by
  refine .cached (fun _ => rfl) fun text => ?_
  constructor
  -- Whichever job has stitched the graph, it has stitched the same inputs.
  · rintro ⟨j', hj', hkey, i', report, hi', hstitch, htext⟩
    obtain rfl := hi'.eq_of_packages_eq hi (hapart.packages_eq hj hdigests hj' hkey)
    exact ⟨report, hstitch, htext⟩
  · rintro ⟨report, hstitch, htext⟩
    exact ⟨j, hj, rfl, i, report, hi, hstitch, htext⟩

/-- The analysis of a job depends on nothing but the replies, as long as no other job has its text. -/
theorem gives_analyze (hdigests : DigestsDiffer (jobs.map fun j => ⟨j, settings⟩))
    (hapart : v.Apart settings j jobs) :
    Stage.Gives (Session.Keeps (v.Admits settings jobs)) (j.analyze c settings) (v.analysis settings j) := by
  have hafter : Stage.Gives (Session.Keeps (v.Admits settings jobs))
      (AnalysisRun.afterAttempts ⟨j, settings⟩ c (v.tried j)) (v.analysis settings j) := by
    refine .bind (.each fun p hp => gives_bridgeStage hv hj hp) fun reports hreports => ?_
    refine .bind (.each fun p hp => gives_interpretedStage hv hj hp) fun graphs hgraphs => ?_
    exact .bind (gives_unifiedStage hj hdigests hapart ⟨hreports, hgraphs, rfl⟩) fun report _ => .pure _
  intro s hs
  rcases attempts_eq_tried hv hj hs with ⟨htried, hkeeps⟩
  have hanalyze := AnalysisRun.analyze_eq ⟨j, settings⟩ c s
  rw [AnalysisRun.tried, htried] at hanalyze
  rw [hanalyze]
  exact hafter _ hkeeps

/-- In any case it keeps nothing that is not to be kept. -/
theorem keeps_analyze {s : Session σ} (hs : s.Keeps (v.Admits settings jobs)) :
    (j.analyze c settings s).2.Keeps (v.Admits settings jobs) := by
  rcases attempts_eq_tried hv hj hs with ⟨htried, hkeeps⟩
  have hbridges : (AnalysisRun.bridges ⟨j, settings⟩ c s).1 = _ ∧
      (AnalysisRun.bridges ⟨j, settings⟩ c s).2.Keeps (v.Admits settings jobs) :=
    Stage.Gives.each (fun p hp => gives_bridgeStage hv hj hp) _ hkeeps
  have hinterpreted : (AnalysisRun.interpreted ⟨j, settings⟩ c s).1 = _ ∧
      (AnalysisRun.interpreted ⟨j, settings⟩ c s).2.Keeps (v.Admits settings jobs) :=
    Stage.Gives.each (fun p hp => gives_interpretedStage hv hj hp) _ hbridges.2
  refine AnalysisRun.snd_analyze (r := ⟨j, settings⟩) hbridges.2 hinterpreted.2 fun reports graphs hreports hgraphs => ?_
  have hunified : Stage.Spec (Session.Keeps (v.Admits settings jobs)) (AnalysisRun.unifiedStage ⟨j, settings⟩
      (Attempt.missing (v.tried j)) ⟨graphs, Attempt.obtained (v.tried j), reports⟩ : Stage σ StitchReport) _ :=
    .cached fun w report hreport => ⟨j, hj, rfl, _, report,
      ⟨hbridges.1.symm.trans hreports, hinterpreted.1.symm.trans hgraphs, rfl⟩, hreport, rfl⟩
  rw [AnalysisRun.unified, AnalysisRun.tried, htried]
  exact (hunified _ hinterpreted.2).1

end

end Replies
end Bridgework
