import Bridgework.CallGraph.Disassembly
import Bridgework.Command.System
import Bridgework.Command.Template
import Bridgework.Digest

/-!
# Analysers that are commands

A native call graph is made by a command that reads a library and writes a disassembly, to a file if its
arguments name one and else to its output.

- `NativeAnalyzer`, `NativeAnalyzer.ofCommand` : an analyser, and one from a command
- `NativeAnalyzer.outputPath`, `NativeAnalyzer.argumentsFor` : the file that it may write, and its arguments
- `NativeAnalyzer.analyze` : one analysis on a system
-/

namespace Bridgework
namespace Command

/-- A command that analyses native code. -/
structure NativeAnalyzer where
  program : String
  /-- The templates of its arguments. -/
  templates : List String
  /-- Where it may write. -/
  workDirectory : String
  deriving DecidableEq, Repr

namespace NativeAnalyzer

def ofCommand (command : List String) (workDirectory : String) : Except Error NativeAnalyzer :=
  match command with
  | program :: templates => .ok ⟨program, templates, workDirectory⟩
  | [] => .error (.config "native analyzer command is empty")

def writesFile (a : NativeAnalyzer) : Bool :=
  a.templates.any fun t => Text.hasPart outputMark.toList t.toList

def outputPath (a : NativeAnalyzer) (library : Library) : String :=
  Path.append a.workDirectory (library.fileName ++ "-" ++ shortDigest 12 library.display ++ ".json")

def argumentsFor (a : NativeAnalyzer) (library : Library) (path : String) : List String :=
  a.templates.map (Placeholders.fill ⟨path, a.outputPath library, library.fileName⟩)

/-- Starts the program, and waits for its end or the end of the time. -/
def start {σ : Type} (a : NativeAnalyzer) (system : System σ) (library : Library) (path : String)
    (limit : Option Nat) (s : σ) : Except Error (Streams × Exit) × σ :=
  match system.run a.program (a.argumentsFor library path) limit s with
  | (.error problem, s) => (.error (.analyzer ("cannot start " ++ a.program ++ ": " ++ problem)), s)
  | (.ok (.stopped limit), s) => (.error (.timeout ("native analysis of " ++ library.display) (limit / 1000)), s)
  | (.ok (.exited streams exit), s) => (.ok (streams, exit), s)

/-- The disassembly: the file, which is removed, or what the program has written to its output. -/
def collect {σ : Type} (a : NativeAnalyzer) (system : System σ) (library : Library) (out : String) (s : σ) :
    Except Error String × σ :=
  if a.writesFile then
    match system.read (a.outputPath library) s with
    | .ok text => (.ok text, system.remove (a.outputPath library) s)
    | .error problem => (.error (.io problem), s)
  else (.ok out, s)

/-- Analyses a library that lies at a path, with a limit in milliseconds. -/
def analyze {σ : Type} (a : NativeAnalyzer) (system : System σ) (library : Library) (path : String)
    (limit : Option Nat) (s : σ) : Except Error NativeGraph × σ :=
  match system.makeDirectories a.workDirectory s with
  | .error problem => (.error (.io problem), s)
  | .ok s =>
    match a.start system library path limit s with
    | (.error e, s) => (.error e, s)
    | (.ok (streams, exit), s) =>
      if exit.isSuccess then
        let (text, s) := a.collect system library streams.out s
        (text.bind (NativeGraph.ofDisassembly library), s)
      else
        (.error (.analyzer (a.program ++ " exited with " ++ exit.display ++ " for " ++ library.display ++ ": " ++
          Text.trim streams.err)), s)

end NativeAnalyzer

end Command
end Bridgework
