/-!
# Systems that run commands

What an analyser that is a command asks of the system around it: directories, programs and files.

- `Exit`, `Streams`, `Ending` : how a program ends, and what it has written
- `System` : the requests, over a state of the system
-/

namespace Bridgework
namespace Command

/-! ## Ends of programs -/

inductive Exit where
  | status (n : Nat)
  | signal (n : Nat)
  deriving DecidableEq, Repr

def signalNames : List (Nat × String) :=
  [(1, "HUP"), (2, "INT"), (3, "QUIT"), (4, "ILL"), (5, "TRAP"), (6, "ABRT"), (7, "BUS"), (8, "FPE"),
    (9, "KILL"), (10, "USR1"), (11, "SEGV"), (12, "USR2"), (13, "PIPE"), (14, "ALRM"), (15, "TERM")]

namespace Exit

def isSuccess (e : Exit) : Bool := e == .status 0

def display : Exit → String
  | .status n => "exit status: " ++ toString n
  | .signal n =>
    "signal: " ++ toString n ++
      match signalNames.find? fun s => s.1 == n with
      | some s => " (SIG" ++ s.2 ++ ")"
      | none => ""

end Exit

structure Streams where
  out : String
  err : String

inductive Ending where
  | exited (streams : Streams) (exit : Exit)
  /-- Its time, in milliseconds, was over. -/
  | stopped (limit : Nat)

/-! ## Requests -/

/-- A system with states of type `σ`. What goes wrong is told in the words of the system. -/
structure System (σ : Type) where
  /-- Makes a directory and those that it lies in. -/
  makeDirectories : String → σ → Except String σ
  /-- Starts a program with arguments, and waits for its end, or for the end of its time. -/
  run : String → List String → Option Nat → σ → Except String Ending × σ
  read : String → σ → Except String String
  /-- Removes a file if it can. -/
  remove : String → σ → σ

end Command
end Bridgework
