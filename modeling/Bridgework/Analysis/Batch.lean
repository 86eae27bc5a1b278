import Bridgework.Analysis.Client

/-!
# Batches

Jobs one after another over one cache. A failing job does not stop the others.

- `PackageOutcome`, `BatchSummary`, `BatchResult` : the outcome of each job, and the totals
- `runBatch` : the jobs together
-/

namespace Bridgework

/-- The outcome of a job: its analysis, or the text of the error that ended it. -/
structure PackageOutcome where
  package : Package
  result : Except String PackageAnalysis

namespace PackageOutcome

def analysis? (o : PackageOutcome) : Option PackageAnalysis := o.result.toOption

def toJson (o : PackageOutcome) : Json :=
  let (analysis, error) := match o.result with
    | .ok a => (a.toJson, .null)
    | .error text => (.null, .text text)
  .object [("package", o.package.toJson), ("analysis", analysis), ("error", error)]

end PackageOutcome

structure BatchSummary where
  analysed : Nat
  failed : Nat
  skippedModules : Nat
  /-- Entries into native code that were not resolved, and bridges that became no edge. -/
  unresolvedBridges : Nat
  failedComputations : Nat
  deriving DecidableEq, Repr

def BatchSummary.toJson (s : BatchSummary) : Json :=
  .object [("packages_analysed", .nat s.analysed), ("packages_failed", .nat s.failed),
    ("skipped_modules", .nat s.skippedModules), ("unresolved_bridges", .nat s.unresolvedBridges),
    ("failed_computations", .nat s.failedComputations)]

structure BatchResult where
  outcomes : List PackageOutcome
  summary : BatchSummary

namespace BatchResult

def of (outcomes : List PackageOutcome) (failedComputations : Nat) : BatchResult :=
  let analyses := outcomes.filterMap PackageOutcome.analysis?
  { outcomes
    summary := {
      analysed := analyses.length
      failed := outcomes.length - analyses.length
      skippedModules := analyses.foldr (fun a n => a.skippedModules + n) 0
      unresolvedBridges :=
        analyses.foldr (fun a n => a.unresolvedForeign + a.stitch.bridgesMissed + n) 0
      failedComputations } }

def toJson (r : BatchResult) : Json :=
  .object [("outcomes", .list PackageOutcome.toJson r.outcomes), ("summary", r.summary.toJson)]

end BatchResult

section

variable {σ : Type} (c : Collaborators σ) (settings : Settings)

def Job.run (j : Job) (s : Session σ) : PackageOutcome × Session σ :=
  match j.analyze c settings s with
  | (.ok a, s) => (⟨j.client.package, .ok a⟩, s)
  | (.error e, s) => (⟨j.client.package, .error e.message⟩, s)

def runJobs : List Job → Session σ → List PackageOutcome × Session σ
  | [], s => ([], s)
  | j :: js, s =>
    let (o, s) := j.run c settings s
    let (os, s) := runJobs js s
    (o :: os, s)

def Session.failures (s : Session σ) : Nat := ((s.store.stats? 0).getD .zero).failures

def runBatch (jobs : List Job) (s : Session σ) : BatchResult × Session σ :=
  let (outcomes, after) := runJobs c settings jobs s
  (.of outcomes (after.failures - s.failures), after)

end

end Bridgework
