import Bridgework.Command.Analyzer
import Bridgework.Testbed.Shell

/-!
# Trials of analysers

Analyses on machines, and how a machine answers the requests of an analyser.

- `Machine.system` : a machine as a system that runs commands
- `Trial` : one analysis on a machine of its own
-/

namespace Bridgework
namespace Testbed

/-! ## Machines as systems -/

/-- Places that exist and cannot be run. -/
def notRunnable : List String :=
  ["/dev/null", "/dev/zero", "/etc/passwd", "/etc/hosts", "/etc/hostname", "/", "/tmp", "/etc", "/dev", "/usr",
    "/bin", "/usr/bin", ".", "..", "./", "../"]

def startProblem (m : Machine) (program : String) (args : List String) : String :=
  if (program :: args).any fun s => s.toList.contains '\x00' then "nul byte found in provided data"
  else if !program.isEmpty &&
      (notRunnable.contains program || m.files.contains program || m.isDirectory program) then
    "Permission denied (os error 13)"
  else "No such file or directory (os error 2)"

/-- The requests of an analyser, done by a machine. -/
def Machine.system : Command.System Machine where
  makeDirectories path m :=
    match m.makeDirectories? path with
    | some m => .ok m
    | none => .error "Not a directory (os error 20)"
  run program args limit m :=
    let limited := { m with deadline := limit.map (m.clock + ·) }
    -- No program can be given a text with a zero in it.
    let result := if (program :: args).any fun s => s.toList.contains '\x00' then none
      else limited.execute program args
    match result with
    | none => (.error (startProblem m program args), m)
    | some (streams, exit, m) =>
      match limit, m.isOver with
      | some limit, true => (.ok (.stopped limit), m)
      | _, _ => (.ok (.exited streams exit), m)
  read path m :=
    match m.files.get? path with
    | some text => .ok text
    | none => .error "No such file or directory (os error 2)"
  remove path m := { m with files := m.files.erase path }

/-! ## Trials -/

/-- One analysis on a machine of its own, which has a directory with the library and a place to write. -/
structure Trial where
  command : List String
  library : Library
  /-- What the library holds, if it is there. -/
  content : Option String
  fileName : String
  limit : Option Nat
  /-- A file stands in the way of the place to write. -/
  isBlocked : Bool

namespace Trial

def directory : String := "/trial/room"

def workDirectory : String := directory ++ "/w/ork"

def machine (t : Trial) : Machine where
  files :=
    SortedMap.ofList ((t.content.toList.map fun s => (directory ++ "/" ++ t.fileName, s)) ++
      if t.isBlocked then [(directory ++ "/w", "")] else [])
  directories := ["", "/trial", directory, "/tmp"]
  clock := 0
  deadline := none

/-- The graph or the failure, and the names of the files that are left in the place to write. -/
def run (t : Trial) : Except Error NativeGraph × List String :=
  match Command.NativeAnalyzer.ofCommand t.command workDirectory with
  | .error e => (.error e, [])
  | .ok a =>
    let (r, m) := a.analyze Machine.system t.library (directory ++ "/" ++ t.fileName) t.limit t.machine
    (r, m.namesIn workDirectory)

/-- The text of a failure, in which the directory has a name that does not depend on the machine. -/
def messageOf (e : Error) : String := Text.replaceAll directory "<dir>" e.message

end Trial
end Testbed
end Bridgework
