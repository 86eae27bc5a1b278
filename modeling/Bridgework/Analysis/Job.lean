import Bridgework.Install.Tree

/-!
# Jobs

- `Job` : a package to analyse, with the packages that it may depend on
- `Job.packages` : the packages that an analysis looks at, in order
-/

namespace Bridgework

/-- A package to analyse, with the packages that it may depend on. -/
structure Job where
  client : InstalledPackage
  dependencies : List InstalledPackage

namespace Job

/-- The dependencies by package. Of several installations of one package the first counts. -/
def installed (j : Job) : SortedMap Package InstalledPackage :=
  .ofList (j.dependencies.reverse.map fun d => (d.package, d))

/-- The client, then the dependencies in order, without the client. -/
def packages (j : Job) : List InstalledPackage :=
  j.client :: (j.installed.erase j.client.package).values

def libraries (j : Job) : List (InstalledPackage × Library) :=
  j.packages.flatMap fun p => p.libraries.map fun l => (p, l)

end Job
end Bridgework
