import Bridgework.Analysis.Batch
import Bridgework.Proofs.Analysis.Exact
import Bridgework.Proofs.Collection.Increasing

/-!
# Jobs of a batch do not affect each other

The jobs of a batch share a cache: native call graphs, bridge reports, call graphs of interpreted code and
unified graphs that one job leaves there are found by the next, while failures are tried again. With
collaborators whose replies are fixed, each job has the outcome that it has alone, in whatever order the
jobs are run.

- `PackageOutcome.total` : a sum over the analyses that succeeded
- `BatchResult.Reports` : a result with given outcomes, and totals that belong to them
- `runScheduled` : the jobs in any order, their outcomes in the order of the jobs
- `Replies.outcome`, `Replies.runJobs_eq` : the outcomes in terms of the replies
- `batch_independent` : every job as if it were alone
-/

namespace Bridgework

variable {σ α β : Type}

/-! ## Totals -/

/-- The sum of a number over the analyses that succeeded. -/
def PackageOutcome.total (f : PackageAnalysis → Nat) : List PackageOutcome → Nat
  | [] => 0
  | o :: os => (o.analysis?.map f).getD 0 + total f os

/-- The fold that a batch sums with is the sum over all outcomes. -/
theorem PackageOutcome.foldr_filterMap_analysis? (f : PackageAnalysis → Nat) (os : List PackageOutcome) :
    (os.filterMap PackageOutcome.analysis?).foldr (fun a n => f a + n) 0 = total f os := by
  induction os with
  | nil => rfl
  | cons o os ih =>
    cases ho : o.analysis? with
    | none => simp [total, ho, ih]
    | some a => simp [total, ho, ih]

theorem PackageOutcome.length_filterMap_analysis? (os : List PackageOutcome) :
    (os.filterMap PackageOutcome.analysis?).length = total (fun _ => 1) os := by
  rw [← foldr_filterMap_analysis?]
  induction os.filterMap PackageOutcome.analysis? with
  | nil => rfl
  | cons a as ih => rw [List.length_cons, List.foldr_cons, ih, Nat.add_comm]

/-- The outcomes are as given, each is counted as an analysis or as a failure, and the totals are the sums
over the analyses. -/
structure BatchResult.Reports (b : BatchResult) (os : List PackageOutcome) : Prop where
  outcomes : b.outcomes = os
  analysed : b.summary.analysed = PackageOutcome.total (fun _ => 1) os
  counted : b.summary.analysed + b.summary.failed = os.length
  skippedModules : b.summary.skippedModules = PackageOutcome.total (·.skippedModules) os
  unresolvedBridges : b.summary.unresolvedBridges =
    PackageOutcome.total (fun a => a.unresolvedForeign + a.stitch.bridgesMissed) os

/-- A result that is put together from outcomes reports them. -/
theorem BatchResult.reports_of (os : List PackageOutcome) (failures : Nat) :
    (BatchResult.of os failures).Reports os where
  outcomes := rfl
  analysed := PackageOutcome.length_filterMap_analysis? os
  counted := Nat.add_sub_of_le (List.length_filterMap_le PackageOutcome.analysis? os)
  skippedModules := PackageOutcome.foldr_filterMap_analysis? _ os
  unresolvedBridges := PackageOutcome.foldr_filterMap_analysis? _ os

/-! ## Schedules -/

/-- The members of a list in the order of their numbers. -/
def inPlace (numbers : List Nat) (l : List α) : List α :=
  ((numbers.zip l).mergeSort fun a b => (compare a.1 b.1).isLE).map Prod.snd

/-- Sorting by numbers does nothing where numbers increase already. -/
theorem mergeSort_of_increasing {l : List (Nat × α)} (h : (l.map Prod.fst).Pairwise (· < ·)) :
    (l.mergeSort fun a b => (compare a.1 b.1).isLE) = l := by
  apply List.mergeSort_of_pairwise
  exact (List.pairwise_map.1 h).imp fun hlt => Nat.isLE_compare.2 (Nat.le_of_lt hlt)

theorem inPlace_range (l : List α) : inPlace (List.range' 0 l.length) l = l := by
  have hnumbers : (((List.range' 0 l.length).zip l).map Prod.fst).Pairwise (· < ·) := by
    rw [List.map_fst_zip (by simp)]
    exact List.pairwise_lt_range'
  rw [inPlace, mergeSort_of_increasing hnumbers, List.map_snd_zip (by simp)]

/-- Results of numbered members, in whatever order these come, are put in the order of the members. -/
theorem forall₂_inPlace {R : α → β → Prop} {l : List α} {schedule : List (α × Nat)} {results : List β}
    (hperm : schedule.Perm l.zipIdx) (h : List.Forall₂ R (schedule.map Prod.fst) results) :
    List.Forall₂ R l (inPlace (schedule.map Prod.snd) results) := by
  obtain ⟨hlength, hrelated⟩ := List.forall₂_iff_zip.1 (List.forall₂_map_left_iff.1 h)
  -- Members and results are sorted together, by the numbers of the members.
  let sorted := (schedule.zip results).mergeSort fun t u => (compare t.1.2 u.1.2).isLE
  have hresults : inPlace (schedule.map Prod.snd) results = sorted.map Prod.snd := by
    have hmap := List.map_mergeSort (f := fun t : (α × Nat) × β => (t.1.2, t.2))
      (l := schedule.zip results) (s := fun a b => (compare a.1 b.1).isLE) fun _ _ _ _ => rfl
    rw [inPlace, List.zip_map_left]
    exact (congrArg (List.map Prod.snd) hmap).symm.trans (by rw [List.map_map]; rfl)
  have hmembers : l = sorted.map fun t => t.1.1 := by
    have hmap := List.map_mergeSort (f := fun t : (α × Nat) × β => t.1.swap)
      (l := schedule.zip results) (s := fun a b => (compare a.1 b.1).isLE) fun _ _ _ _ => rfl
    have hnumbers : ((l.zipIdx.map Prod.swap).map Prod.fst).Pairwise (· < ·) := by
      have hfst : (l.zipIdx.map Prod.swap).map Prod.fst = l.zipIdx.map Prod.snd := List.map_map
      rw [hfst, List.zipIdx_map_snd]
      exact List.pairwise_lt_range'
    have hswap : (schedule.zip results).map (fun t => t.1.swap) = schedule.map Prod.swap := by
      have hcomp := List.map_map (f := Prod.fst) (g := Prod.swap) (l := schedule.zip results)
      rw [List.map_fst_zip (Nat.le_of_eq hlength)] at hcomp
      exact hcomp.symm
    have hsorted := mergeSort_eq_of_perm (hnumbers.imp Nat.ne_of_lt) (hperm.map Prod.swap)
    rw [hswap, hsorted, mergeSort_of_increasing hnumbers] at hmap
    calc
      l = (l.zipIdx.map Prod.swap).map Prod.snd := by
        rw [List.map_map]
        exact (List.zipIdx_map_fst 0 l).symm
      _ = sorted.map fun t => t.1.1 := by
        rw [← hmap, List.map_map]
        rfl
  rw [hresults]
  nth_rewrite 1 [hmembers]
  refine List.forall₂_map_left_iff.2 (List.forall₂_map_right_iff.2 (List.forall₂_same.2 fun t ht => ?_))
  exact hrelated (List.mem_mergeSort.1 ht)

/-- If each result is right under a condition, then all are right where the condition holds of all. -/
theorem eq_map_of_forall₂ {P : α → Prop} {f : α → β} {l : List α} {results : List β}
    (h : List.Forall₂ (fun a b => P a → b = f a) l results) (hP : ∀ a ∈ l, P a) : results = l.map f := by
  induction h with
  | nil => rfl
  | @cons a b l results hab _ ih =>
    rw [List.map_cons, hab (hP a List.mem_cons_self), ih fun a' ha' => hP a' (List.mem_cons_of_mem a ha')]

section

variable (c : Collaborators σ) (settings : Settings)

/-- Runs numbered jobs in any order. The outcomes are those of the jobs in the order of their numbers. -/
def runScheduled (schedule : List (Job × Nat)) (s : Session σ) : BatchResult × Session σ :=
  let (outcomes, after) := runJobs c settings (schedule.map Prod.fst) s
  (.of (inPlace (schedule.map Prod.snd) outcomes) (after.failures - s.failures), after)

theorem length_runJobs (jobs : List Job) (s : Session σ) :
    (runJobs c settings jobs s).1.length = jobs.length := by
  induction jobs generalizing s with
  | nil => rfl
  | cons j jobs ih => exact congrArg (· + 1) (ih _)

/-- A batch runs its jobs in their own order. -/
theorem runScheduled_zipIdx (jobs : List Job) (s : Session σ) :
    runScheduled c settings jobs.zipIdx s = runBatch c settings jobs s := by
  have hplace := inPlace_range (runJobs c settings jobs s).1
  rw [length_runJobs] at hplace
  simp only [runScheduled, runBatch, List.zipIdx_map_fst, List.zipIdx_map_snd, hplace]

end

/-! ## Outcomes -/

theorem Job.run_eq_analyze (c : Collaborators σ) (settings : Settings) (j : Job) (s : Session σ) :
    j.run c settings s =
      (⟨j.client.package, (j.analyze c settings s).1.mapError Error.message⟩, (j.analyze c settings s).2) := by
  rw [Job.run]
  match j.analyze c settings s with
  | (.ok a, s') => rfl
  | (.error e, s') => rfl

namespace Replies

variable {v : Replies} {c : Collaborators σ} {settings : Settings} {jobs : List Job} {s : Session σ}

/-- The outcome of a job, as far as the replies allow. -/
def outcome (v : Replies) (settings : Settings) (j : Job) : PackageOutcome :=
  ⟨j.client.package, (v.analysis settings j).mapError Error.message⟩

section

variable (hv : v.Govern c settings jobs) (hdigests : DigestsDiffer (jobs.map fun j => ⟨j, settings⟩))

include hv hdigests

/-- From a session that keeps only what the replies allow, a job has the outcome that the replies give it. -/
theorem run_eq {j : Job} (hj : j ∈ jobs) (hapart : v.Apart settings j jobs)
    (hs : s.Keeps (v.Admits settings jobs)) : (j.run c settings s).1 = v.outcome settings j := by
  rw [Job.run_eq_analyze, outcome, (gives_analyze hv hj hdigests hapart s hs).1]

/-- Each job has one outcome, and if no other job has its text, it is the same from all sessions in which only
what belongs to the jobs is kept. -/
theorem runJobs_spec {js : List Job} (hjs : js ⊆ jobs) (hs : s.Keeps (v.Admits settings jobs)) :
    List.Forall₂ (fun j o => o.package = j.client.package ∧ (v.Apart settings j jobs →
      ∀ s', Session.Keeps (v.Admits settings jobs) s' → o = (j.run c settings s').1))
      js (runJobs c settings js s).1 := by
  induction js generalizing s with
  | nil => exact .nil
  | cons j js ih =>
    have hj := hjs List.mem_cons_self
    have hkeeps : (j.run c settings s).2.Keeps (v.Admits settings jobs) := by
      rw [Job.run_eq_analyze]
      exact keeps_analyze hv hj hs
    have hpackage : (j.run c settings s).1.package = j.client.package := by rw [Job.run_eq_analyze]
    refine .cons ⟨hpackage, fun hapart s' hs' => ?_⟩ (ih (fun i hi => hjs (List.mem_cons_of_mem j hi)) hkeeps)
    exact (run_eq hv hdigests hj hapart hs).trans (run_eq hv hdigests hj hapart hs').symm

end

end Replies

/-! ## Jobs that differ in form -/

/-- Jobs with the same work do the same to every session. -/
theorem Job.SameWork.run_eq (c : Collaborators σ) (settings : Settings) {j j' : Job} (h : j.SameWork j')
    (hone : ∀ p ∈ j.dependencies, ∀ q ∈ j.dependencies, p.package = q.package → p = q) (s : Session σ) :
    j'.run c settings s = j.run c settings s := by
  have hpackages := h.packages_eq hone
  have hanalyze : j'.analyze c settings = j.analyze c settings := by
    rw [Job.analyze, Job.analyze, Job.libraries, Job.libraries, ← hpackages, ← h.1]
  rw [Job.run, Job.run, hanalyze, ← h.1]

/-- A batch of jobs with the same work does the same as a whole. -/
theorem runJobs_eq_of_sameWork (c : Collaborators σ) (settings : Settings) {jobs jobs' : List Job}
    (h : List.Forall₂ Job.SameWork jobs jobs')
    (hone : ∀ j ∈ jobs, ∀ p ∈ j.dependencies, ∀ q ∈ j.dependencies, p.package = q.package → p = q)
    (s : Session σ) : runJobs c settings jobs' s = runJobs c settings jobs s := by
  induction h generalizing s with
  | nil => rfl
  | @cons j j' _ _ hsame _ ih =>
    have hrun := hsame.run_eq c settings (hone j List.mem_cons_self)
    have hrest := ih fun i hi => hone i (List.mem_cons_of_mem j hi)
    simp only [runJobs, hrun, hrest]

/-! ## Batches -/

/-- The cache is empty and nothing is under way. -/
def Session.Fresh (s : Session σ) : Prop := ∃ lease now, s.store = .start lease now

theorem Session.Fresh.keeps {s : Session σ} (h : s.Fresh) (P : Memo.Key → String → Prop) : s.Keeps P := by
  obtain ⟨store, world⟩ := s
  obtain ⟨lease, now, rfl⟩ := h
  exact .start lease now world

/-- Over one cache that is empty at first, each job has one outcome, in the order of the jobs, and the totals are
those of the outcomes. Whether the jobs before it succeed or fail and in whatever order they are run, the outcome
of a job is the one that it has alone over an empty cache, unless another job of its client with other packages
has the text of its unified graph; if the names are plain, none has. It makes no difference in which order
dependencies are given, how often, and whether the client is among them. -/
theorem batch_independent (c : Collaborators σ) (settings : Settings) (jobs : List Job) (v : Replies)
    (hv : v.Govern c settings jobs) (hdigests : DigestsDiffer (jobs.map fun j => ⟨j, settings⟩))
    (s s' : Session σ) (hs : s.Fresh) (hs' : s'.Fresh) :
    (∀ schedule : List (Job × Nat), schedule.Perm jobs.zipIdx →
      ∃ outcomes, (runScheduled c settings schedule s).1.Reports outcomes ∧
        List.Forall₂ (fun j o => o.package = j.client.package ∧
          (v.Apart settings j jobs → o = (j.run c settings s').1)) jobs outcomes) ∧
    (PlainNames (jobs.map fun j => ⟨j, settings⟩) →
      ∀ schedule : List (Job × Nat), schedule.Perm jobs.zipIdx →
        (runScheduled c settings schedule s).1.Reports (jobs.map fun j => (j.run c settings s').1)) ∧
    runScheduled c settings jobs.zipIdx s = runBatch c settings jobs s ∧
    ∀ jobs', List.Forall₂ Job.SameWork jobs jobs' →
      runBatch c settings jobs' s = runBatch c settings jobs s := by
  -- A schedule runs the jobs of the batch in another order, and each finds its place again.
  have hscheduled (schedule : List (Job × Nat)) (hschedule : schedule.Perm jobs.zipIdx) :
      ∃ outcomes, (runScheduled c settings schedule s).1.Reports outcomes ∧
        List.Forall₂ (fun j o => o.package = j.client.package ∧
          (v.Apart settings j jobs → o = (j.run c settings s').1)) jobs outcomes := by
    have hsubset : schedule.map Prod.fst ⊆ jobs := by
      intro j hj
      have hperm := hschedule.map Prod.fst
      rw [List.zipIdx_map_fst] at hperm
      exact hperm.mem_iff.1 hj
    have hjobs := forall₂_inPlace hschedule (Replies.runJobs_spec hv hdigests hsubset (hs.keeps _))
    exact ⟨_, BatchResult.reports_of _ _,
      hjobs.imp fun j o ho => ⟨ho.1, fun hapart => ho.2 hapart s' (hs'.keeps _)⟩⟩
  refine ⟨hscheduled, fun hplain schedule hschedule => ?_, runScheduled_zipIdx c settings jobs s, ?_⟩
  -- With plain names no job has to be told apart from the others.
  · obtain ⟨outcomes, hreports, houtcomes⟩ := hscheduled schedule hschedule
    have halone : outcomes = jobs.map fun j => (j.run c settings s').1 :=
      eq_map_of_forall₂ (houtcomes.imp fun j o ho => ho.2) fun j hj =>
        Replies.apart_of_plainNames hv hdigests hplain hj
    exact halone ▸ hreports
  · intro jobs' hsame
    have hruns := runJobs_eq_of_sameWork c settings hsame fun j hj p hp q hq =>
      hv.installs j hj j hj p (List.mem_cons_of_mem _ hp) q (List.mem_cons_of_mem _ hq)
    rw [runBatch, runBatch, hruns]

/-! ## A job that fails before one that does not -/

/-- Collaborators that reply as given and have no state. -/
def Replies.collaborators (v : Replies) : Collaborators Unit where
  nativeGraph _ l _ w := (v.native l, w)
  bridgeReport p _ w := (v.bridges p.package, w)
  interpretedGraph p w := (v.interpreted p.package, w)

def brokenApp : InstalledPackage := bare ⟨"broken", "1"⟩

/-- Bridge reports of one package fail. -/
def brokenReplies : Replies where
  native l := .ok (.empty l)
  bridges p := if p = brokenApp.package then .error (.notFound "broken") else .ok (.empty p)
  interpreted p := .ok (.empty p)

/-- The second job has the client of the first as a dependency. -/
def sharingJobs : List Job := [⟨flakyApp, []⟩, ⟨brokenApp, [flakyApp]⟩]

/-- The failing reports do not depend on the state of the collaborators. -/
theorem govern_brokenReplies :
    brokenReplies.Govern brokenReplies.collaborators flakyRun.settings sharingJobs where
  native _ _ _ _ _ := rfl
  bridges _ _ _ _ _ := rfl
  interpreted _ _ _ _ _ := rfl
  installs := by
    have hinstalls {j : Job} (hj : j ∈ sharingJobs) {p : InstalledPackage}
        (hp : p ∈ j.client :: j.dependencies) : p = flakyApp ∨ p = brokenApp := by
      simp only [sharingJobs, List.mem_cons, List.not_mem_nil, or_false] at hj
      rcases hj with rfl | rfl
      · simp_all
      · simp_all [or_comm]
    intro j hj j' hj' p hp q hq hpackage
    -- There are two packages only, and they are told apart by their names.
    have hne : flakyApp.package ≠ brokenApp.package := by decide
    rcases hinstalls hj hp with rfl | rfl
    · rcases hinstalls hj' hq with rfl | rfl
      · rfl
      · exact absurd hpackage hne
    · rcases hinstalls hj' hq with rfl | rfl
      · exact absurd hpackage.symm hne
      · rfl

/-- The analysis of the second job. -/
def brokenRun : AnalysisRun := ⟨⟨brokenApp, [flakyApp]⟩, flakyRun.settings⟩

theorem mem_sharingJobs {r : AnalysisRun} (hr : r ∈ sharingJobs.map fun j => ⟨j, flakyRun.settings⟩) :
    r = flakyRun ∨ r = brokenRun := by
  simpa [sharingJobs, flakyRun, brokenRun] using hr

theorem brokenRun_libraries : brokenRun.libraries = [flakyLibrary] := by
  have hnone : brokenApp.libraries = [] := libraries_bare brokenApp.package
  have hpackages : brokenRun.job.packages = [brokenApp, flakyApp] := rfl
  rw [AnalysisRun.libraries_eq_flatMap, hpackages]
  simp [hnone, libraries_flakyApp]

theorem scan_brokenRun : brokenRun.settings.scan = ScanSettings.default := rfl

/-- The digests of the texts with the library and without it. -/
theorem shortDigest_brokenRun : shortDigest 16 (brokenRun.source []).text = "81791e43b89a62d8" ∧
    shortDigest 16 (brokenRun.source [flakyLibrary]).text = "faccb98db03d84d9" := by
  rw [AnalysisRun.source, AnalysisRun.source, scan_brokenRun, GraphSource.text_default, GraphSource.text_default]
  decide +kernel

/-- The texts of the two analyses differ, and so do their digests. -/
theorem digestsDiffer_sharingJobs : DigestsDiffer (sharingJobs.map fun j => ⟨j, flakyRun.settings⟩) := by
  have hdigests : ([ScanSettings.default.toJson.render, (flakyRun.source []).text,
      (flakyRun.source [flakyLibrary]).text, (brokenRun.source []).text,
      (brokenRun.source [flakyLibrary]).text].map (shortDigest 16)).Nodup := by
    simp only [List.map_cons, List.map_nil, GraphSource.shortDigest_scanSettings, shortDigest_flakyRun,
      shortDigest_brokenRun]
    decide
  refine .of_nodup (fun r hr text htext => ?_) hdigests
  rcases mem_sharingJobs hr with rfl | rfl
  · have hmem := htext.mem_of_libraries_singleton flakyRun_libraries
    rw [scan_flakyRun] at hmem
    simp only [List.mem_cons, List.not_mem_nil, or_false] at hmem ⊢
    tauto
  · have hmem := htext.mem_of_libraries_singleton brokenRun_libraries
    rw [scan_brokenRun] at hmem
    simp only [List.mem_cons, List.not_mem_nil, or_false] at hmem ⊢
    tauto

theorem plainNames_sharingJobs : PlainNames (sharingJobs.map fun j => ⟨j, flakyRun.settings⟩) where
  plain := by
    intro r hr
    rcases mem_sharingJobs hr with rfl | rfl
    · rw [flakyRun_libraries]
      constructor <;> decide
    · rw [brokenRun_libraries]
      constructor <;> decide
  marked := by
    -- All libraries are the same one.
    refine .inl fun l hl => ?_
    obtain ⟨r, hr, hl⟩ := List.mem_flatMap.1 hl
    have hlibraries : r.libraries = [flakyLibrary] := by
      rcases mem_sharingJobs hr with rfl | rfl
      · exact flakyRun_libraries
      · exact brokenRun_libraries
    rw [hlibraries, List.mem_singleton] at hl
    rw [hl]
    decide

/-- Run in the other order, the failing job comes first and leaves the native call graph for the other one.
Its outcome is a failure all the same, and stands second. -/
theorem batch_independent_failing :
    (brokenRun.job.run brokenReplies.collaborators flakyRun.settings ⟨.start 1 0, ()⟩).1.analysis?.isNone ∧
    (runScheduled brokenReplies.collaborators flakyRun.settings sharingJobs.zipIdx.reverse
      ⟨.start 1 0, ()⟩).1.Reports
      (sharingJobs.map fun j => (j.run brokenReplies.collaborators flakyRun.settings ⟨.start 9 5, ()⟩).1) ∧
    runBatch brokenReplies.collaborators flakyRun.settings
        [⟨flakyApp, [flakyApp]⟩, ⟨brokenApp, [flakyApp, brokenApp, flakyApp]⟩] ⟨.start 1 0, ()⟩ =
      runBatch brokenReplies.collaborators flakyRun.settings sharingJobs ⟨.start 1 0, ()⟩ := by
  have hall := batch_independent brokenReplies.collaborators flakyRun.settings sharingJobs brokenReplies
    govern_brokenReplies digestsDiffer_sharingJobs ⟨.start 1 0, ()⟩ ⟨.start 9 5, ()⟩ ⟨1, 0, rfl⟩ ⟨9, 5, rfl⟩
  refine ⟨?_, hall.2.1 plainNames_sharingJobs _ (List.reverse_perm _), hall.2.2.2 _ ?_⟩
  · have hbroken : brokenRun.job ∈ sharingJobs := List.mem_cons_of_mem _ List.mem_cons_self
    have hapart := Replies.apart_of_plainNames govern_brokenReplies digestsDiffer_sharingJobs
      plainNames_sharingJobs hbroken
    have hrun := Replies.run_eq govern_brokenReplies digestsDiffer_sharingJobs hbroken hapart
      (Session.Keeps.start 1 0 ())
    rw [hrun]
    rfl
  -- The dependencies are listed once more, or list the client, which changes nothing.
  · refine .cons ⟨rfl, fun d hd => ?_⟩ (.cons ⟨rfl, fun d hd => ?_⟩ .nil)
    · have hne : d ≠ flakyApp := fun heq => hd (heq ▸ rfl)
      simp [hne]
    · have hne : d ≠ brokenApp := fun heq => hd (heq ▸ rfl)
      simp [hne]

/-! ## Jobs with one text -/

/-- Replies that are all given. -/
def oneFunctionReplies : Replies where
  native l := .ok (oneFunction.native l)
  bridges p := .ok (.empty p)
  interpreted p := .ok (oneFunction.interpreted p)

theorem govern_oneFunctionReplies : oneFunctionReplies.Govern oneFunction.collaborators flakyRun.settings
    [pairRun.job, mergedRun.job] where
  native _ _ _ _ _ := rfl
  bridges _ _ _ _ _ := rfl
  interpreted _ _ _ _ _ := rfl
  installs := by
    have hbare {j : Job} (hj : j ∈ [pairRun.job, mergedRun.job]) {p : InstalledPackage}
        (hp : p ∈ j.client :: j.dependencies) : p = bare p.package := by
      simp only [List.mem_cons, List.not_mem_nil, or_false] at hj
      rcases hj with rfl | rfl <;>
        simp only [pairRun, mergedRun, bareRun, List.map_cons, List.map_nil, List.mem_cons, List.not_mem_nil,
          or_false] at hp
      · rcases hp with rfl | rfl | rfl <;> rfl
      · rcases hp with rfl | rfl <;> rfl
    intro j hj j' hj' p hp q hq heq
    rw [hbare hj hp, hbare hj' hq, heq]

theorem supplies_mergedRun :
    oneFunctionReplies.Supplies flakyRun.settings mergedRun.job (bareInputs mergedRun.ids) where
  bridges := by
    have hread (p : Package) : oneFunctionReplies.bridgeResult flakyRun.settings p = .ok (.empty p) :=
      readBack_emptyReport p
    simp only [hread, bareInputs, AnalysisRun.ids, List.map_map]
    exact List.mapM_pure
  interpreted := by
    have hread (p : Package) : oneFunctionReplies.interpretedResult p = .ok (oneFunction.interpreted p) :=
      readBack_interpretedGraph (oneFunction.interpreted p)
    simp only [hread, bareInputs, AnalysisRun.ids, List.map_map]
    exact List.mapM_pure
  native := by
    have hlibraries : mergedRun.job.libraries = [] :=
      List.map_eq_nil_iff.1 (bareRun_libraries ⟨"app", "1"⟩ [⟨"b", "2,c:3"⟩])
    rw [Replies.tried, hlibraries]
    rfl

/-- Alone, the second job has the unified graph of its own packages. -/
theorem run_mergedRun :
    ∃ a, (mergedRun.job.run oneFunction.collaborators flakyRun.settings beforePair).1.result = .ok a ∧
      a.stitch = (bareInputs mergedRun.ids).report := by
  have hsub : [mergedRun.job] ⊆ [pairRun.job, mergedRun.job] := List.subset_cons_self _ _
  have hdigests : DigestsDiffer ([mergedRun.job].map fun j => ⟨j, flakyRun.settings⟩) :=
    digestsDiffer_oneFunction.mono (List.subset_cons_self _ _)
  have hapart : oneFunctionReplies.Apart flakyRun.settings mergedRun.job [mergedRun.job] := by
    intro j hj _ _
    rw [List.mem_singleton.1 hj]
  have hrun := Replies.run_eq (govern_oneFunctionReplies.mono hsub) hdigests List.mem_cons_self hapart
    (Session.Keeps.start 1 0 ())
  have hanalysis := supplies_mergedRun.analysis_eq
    (Codec.settled_eq_ok_iff.2 ⟨_, stitch_mergedRun, readBack_mergedRun⟩)
  rw [beforePair, hrun, Replies.outcome, hanalysis]
  exact ⟨_, rfl, rfl⟩

/-- In the batch it has that of the first job. -/
theorem batch_confused :
    oneFunctionReplies.Govern oneFunction.collaborators flakyRun.settings [pairRun.job, mergedRun.job] ∧
    DigestsDiffer ([pairRun.job, mergedRun.job].map fun j => ⟨j, flakyRun.settings⟩) ∧
    (runBatch oneFunction.collaborators flakyRun.settings [pairRun.job, mergedRun.job] beforePair).1.outcomes ≠
      [pairRun.job, mergedRun.job].map fun j =>
        (j.run oneFunction.collaborators flakyRun.settings beforePair).1 := by
  refine ⟨govern_oneFunctionReplies, digestsDiffer_oneFunction, fun heq => ?_⟩
  have hafter : (pairRun.job.run oneFunction.collaborators flakyRun.settings beforePair).2 = afterPair := by
    rw [Job.run_eq_analyze]
    rfl
  -- The second outcome of the batch is that of the job after the first one.
  have hsecond : (mergedRun.job.run oneFunction.collaborators flakyRun.settings afterPair).1 =
      (mergedRun.job.run oneFunction.collaborators flakyRun.settings beforePair).1 := by
    rw [← hafter]
    exact (List.cons.inj (List.cons.inj heq).2).1
  obtain ⟨a, ha, hgraph⟩ := analyze_mergedRun
  obtain ⟨b, hb, hown⟩ := run_mergedRun
  have hresult := congrArg PackageOutcome.result hsecond
  have hanalysis : (mergedRun.job.analyze oneFunction.collaborators flakyRun.settings afterPair).1 = .ok a := ha
  rw [hb, Job.run_eq_analyze, hanalysis] at hresult
  obtain rfl : a = b := Except.ok.inj hresult
  rw [hgraph, ids_pairRun, ids_mergedRun] at hown
  revert hown
  decide

end Bridgework
